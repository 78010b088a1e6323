import WordLayout.Log
import WordLayout.Shader.Accessors
import WordLayout.Shader.Names
import WordLayout.Validation

/-!
Emitting the accessors of a module in a language: the module must be valid, its names must be
usable, and its payloads supported unless they may be skipped.
-/

namespace WordLayout.Shader

structure Skipped where
  type : String
  variant : String
  reason : String
  deriving DecidableEq, Inhabited

structure Output where
  program : Program
  text : String
  skipped : List Skipped
  log : List Log.Entry
  deriving Inhabited

def Output.functions (out : Output) : List String := out.program.functions.map (·.name)

def unsupported (m : Module) : List Skipped :=
  m.defs.flatMap fun d =>
    match d.body with
    | .union variants =>
      variants.filterMap fun v =>
        match v.payload with
        | .unsupported _ reason => some ⟨d.name, v.name, reason⟩
        | _ => none
    | _ => []

def skip (m : Module) (o : Options) : Except Failure (List Skipped) :=
  match unsupported m with
  | [] => .ok []
  | s :: rest =>
    if o.skipUnsupported then .ok (s :: rest)
    else .error { cause := .unsupported s.reason, type := s.type, variant := s.variant }

def skippedEntry (s : Skipped) : Log.Entry :=
  { level := .warn, message := "skipping unsupported payload"
    values := [("type", .text s.type), ("variant", .text s.variant), ("reason", .text s.reason)] }

def doneEntry (m : Module) (l : Language) (p : Program) (skipped : List Skipped) : Log.Entry :=
  { level := .debug, message := "generated accessors"
    values :=
      [("language", .text l.name), ("module", .text m.name), ("definitions", .number m.defs.length),
        ("functions", .number p.functions.length), ("skipped", .number skipped.length)] }

def emit (m : Module) (l : Language) (o : Options) : Except Failure Output := do
  match m.validate with
  | [] => pure ()
  | errors => throw { cause := .invalid errors }
  let _ ← claimNames m l (bufferName m o)
  let skipped ← skip m o
  let p := program m o
  pure { program := p, text := p.render l, skipped
         log := skipped.map skippedEntry ++ [doneEntry m l p skipped] }

def emit? (m : Option Module) (l : Option Language) (o : Options) : Except Failure Output :=
  match m, l with
  | none, _ => .error { cause := .noModule }
  | some _, none => .error { cause := .noLanguage }
  | some m, some l => emit m l o

end WordLayout.Shader
