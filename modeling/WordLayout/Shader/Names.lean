import WordLayout.Module
import WordLayout.Shader.Dialect
import WordLayout.Shader.Failure
import WordLayout.Shader.Reserved
import WordLayout.Text.Identifier

namespace WordLayout.Shader

abbrev NameTable := List (String × Origin)

def isRawName (name : String) : Bool :=
  match name.toList with
  | 'r' :: 'a' :: 'w' :: digits => !digits.isEmpty && digits.all Text.isAsciiDigit
  | _ => false

namespace NameTable

def locals (l : Language) : NameTable :=
  (l.handleParam :: "ix" :: "s" :: "index" :: l.extraLocals).map fun name =>
    (name, .variable name)

def previous? (used : NameTable) (name : String) : Option Origin :=
  match used.lookup name with
  | some origin => some origin
  | none => if isRawName name then some (.variable name) else none

def claim (used : NameTable) (type name : String) (origin : Origin) : Except Failure NameTable :=
  match used.previous? name with
  | some previous => .error { cause := .collision name origin previous, type }
  | none => .ok ((name, origin) :: used)

end NameTable

def checkName (l : Language) (role : Role) (name type variant : String) : Except Failure Unit :=
  if !Text.isIdentifier name then .error { cause := .notIdentifier role name, type, variant }
  else if l.isReserved name then .error { cause := .reserved role name l, type, variant }
  else .ok ()

def declaredNames (l : Language) (d : TypeDef) : List String :=
  [d.name ++ "Ref", d.name ++ "_size", d.name ++ "_index"] ++ l.extraNames d.name ++
  match d.body with
  | .struct _ => [d.name, d.name ++ "_read", d.name ++ "_write"]
  | .union variants =>
    (d.name ++ "_tag") :: variants.flatMap fun v =>
      let base := d.name ++ "_" ++ v.name
      [base, base ++ "_read", base ++ "_write"]
  | .missing => []

def checkGivenNames (l : Language) (d : TypeDef) : Except Failure Unit := do
  checkName l .type d.name d.name ""
  match d.body with
  | .struct fields => fields.forM fun f => checkName l .field f.name d.name ""
  | .union variants => variants.forM fun v => checkName l .variant v.name d.name v.name
  | .missing => pure ()

def claimDef (l : Language) (used : NameTable) (d : TypeDef) : Except Failure NameTable := do
  checkGivenNames l d
  (declaredNames l d).foldlM (fun used name => used.claim d.name name (.type d.name)) used

def claimNames (m : Module) (l : Language) (buffer : String) : Except Failure NameTable := do
  if buffer = "" then throw { cause := .noBufferName }
  checkName l .buffer buffer "" ""
  let used ← (NameTable.locals l).claim "" buffer .buffer
  m.defs.foldlM (claimDef l) used

end WordLayout.Shader
