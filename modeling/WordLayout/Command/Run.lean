import WordLayout.Command.Arguments
import WordLayout.Command.Storage
import WordLayout.Coverage.Report
import WordLayout.Description.Load
import WordLayout.Shader.Emit

namespace WordLayout.Command

inductive Trouble
  | usage (e : UsageError)
  | unknownLanguage (name : String)
  | unreadable (path : String) (e : AccessError)
  | source (e : SourceError)
  | emission (language : Shader.Language) (f : Shader.Failure)
  | unwritable (path : String) (e : AccessError)
  deriving Inhabited

namespace Trouble

def message : Trouble → String
  | .usage e => e.message
  | .unknownLanguage name => Shader.Language.unknownName name
  | .unreadable path e => "read input: " ++ e.message path
  | .source e => e.message
  | .emission language f => language.name ++ ": " ++ f.message
  | .unwritable path e => "write output: " ++ e.message path

def report : Trouble → String
  | .source e => if e.source.isEmpty then "error: " ++ e.message else e.context
  | t => "error: " ++ t.message

end Trouble

structure Outcome where
  stdout : String := ""
  stderr : String := ""
  log : List Log.Entry := []
  failed : Bool := false
  deriving Inhabited

namespace Outcome

def exitCode (o : Outcome) : UInt8 := if o.failed then 1 else 0

def say (o : Outcome) (line : String) : Outcome :=
  { o with stderr := o.stderr ++ Text.expandTabs line ++ "\n" }

def fail (o : Outcome) (t : Trouble) : Outcome := { o.say t.report with failed := true }

end Outcome

def extensionOf (path : String) : String :=
  let name := (path.toList.reverse.takeWhile (· != '/'))
  if name.contains '.' then String.ofList ((name.takeWhile (· != '.')).reverse.cons '.') else ""

def chooseLanguage (s : Settings) : Except Trouble Shader.Language :=
  if s.target.isEmpty then
    .ok ((Shader.Language.all.find? (·.extension == extensionOf s.output)).getD .glsl)
  else
    match Shader.Language.ofName? s.target with
    | some l => .ok l
    | none => .error (.unknownLanguage s.target)

def skippedLine (s : Shader.Skipped) : String :=
  "skipped " ++ s.type ++ "." ++ s.variant ++ ": " ++ s.reason

def writtenLine (l : Shader.Language) (path : String) (out : Shader.Output) : String :=
  "wrote " ++ toString out.functions.length ++ " " ++ l.name ++ " functions to " ++ path

def loadFile {m : Type → Type} [Monad m] (files : Storage m) (path : String) :
    m (Except Trouble Loaded) := do
  match ← files.read path with
  | .error e => pure (.error (.unreadable path e))
  | .ok bytes => pure ((load bytes).mapError .source)

def deliver {m : Type → Type} [Monad m] (files : Storage m) (s : Settings) (l : Shader.Language)
    (out : Shader.Output) (o : Outcome) : m Outcome := do
  if s.output.isEmpty then pure { o with stdout := o.stdout ++ out.text }
  else
    match ← files.write s.output (Text.toBytes out.text) with
    | .error e => pure (o.fail (.unwritable s.output e))
    | .ok () => pure (o.say (writtenLine l s.output out))

def generate {m : Type → Type} [Monad m] (files : Storage m) (s : Settings) (input : String) :
    m Outcome := do
  match chooseLanguage s with
  | .error t => pure (Outcome.fail {} t)
  | .ok l =>
    match ← loadFile files input with
    | .error t => pure (Outcome.fail {} t)
    | .ok loaded =>
      let o : Outcome := { log := loaded.log }
      match Shader.emit loaded.module l s.shaderOptions with
      | .error f => pure (o.fail (.emission l f))
      | .ok out =>
        deliver files s l out
          (out.skipped.foldl (fun o k => o.say (skippedLine k)) { o with log := o.log ++ out.log })

def coverage {m : Type → Type} [Monad m] (files : Storage m) (input : String) : m Outcome := do
  match ← loadFile files input with
  | .error t => pure (Outcome.fail {} t)
  | .ok loaded => pure { stdout := Coverage.report loaded.module, log := loaded.log }

def perform {m : Type → Type} [Monad m] (files : Storage m) : Request → m Outcome
  | .usage task => pure { stdout := task.usage }
  | .version => pure { stdout := programName ++ " version " ++ programVersion ++ "\n" }
  | .generate s input => generate files s input
  | .coverage input => coverage files input

def keptLog (verbose : Bool) (log : List Log.Entry) : List Log.Entry :=
  if verbose then log else log.filter (·.level == .warn)

def run {m : Type → Type} [Monad m] (files : Storage m) (arguments : List String) : m Outcome := do
  match Request.ofArguments arguments with
  | .error e => pure (Outcome.fail {} (.usage e))
  | .ok (request, verbose) =>
    let o ← perform files request
    pure { o with log := keptLog verbose o.log }

end WordLayout.Command
