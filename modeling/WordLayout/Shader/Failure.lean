import WordLayout.Shader.Language
import WordLayout.Validation.Error

namespace WordLayout.Shader

inductive FailureKind
  | unsupportedPayload
  | invalidModule
  | reservedName
  | nameCollision
  | internal
  | unlisted (code : UInt8)
  deriving DecidableEq, Inhabited

namespace FailureKind

def all : List FailureKind :=
  [.unsupportedPayload, .invalidModule, .reservedName, .nameCollision, .internal]

def ofCode (code : UInt8) : FailureKind := all.getD code.toNat (.unlisted code)

def name : FailureKind → String
  | .unsupportedPayload => "UnsupportedPayload"
  | .invalidModule => "InvalidModule"
  | .reservedName => "ReservedName"
  | .nameCollision => "NameCollision"
  | .internal => "Internal"
  | .unlisted _ => "Unknown"

end FailureKind

structure Report where
  kind : FailureKind
  type : String := ""
  variant : String := ""
  text : String
  deriving DecidableEq, Inhabited

def Report.message (r : Report) : String :=
  let places :=
    (if r.type = "" then [] else ["type " ++ r.type]) ++
    (if r.variant = "" then [] else ["variant " ++ r.variant])
  if places.isEmpty then r.kind.name ++ ": " ++ r.text
  else r.kind.name ++ " in " ++ ", ".intercalate places ++ ": " ++ r.text

inductive Role
  | buffer
  | type
  | field
  | variant
  deriving DecidableEq, Inhabited

def Role.name : Role → String
  | .buffer => "buffer"
  | .type => "type"
  | .field => "field"
  | .variant => "variant"

inductive Origin
  | variable (name : String)
  | buffer
  | type (name : String)
  deriving DecidableEq, Inhabited

def Origin.text : Origin → String
  | .variable name => "local " ++ name
  | .buffer => "buffer"
  | .type name => "type " ++ name

inductive Cause
  | noModule
  | noLanguage
  | invalid (errors : List ValidationError)
  | noBufferName
  | notIdentifier (role : Role) (name : String)
  | reserved (role : Role) (name : String) (language : Language)
  | collision (name : String) (origin previous : Origin)
  | unsupported (reason : String)
  deriving DecidableEq, Inhabited

namespace Cause

def kind : Cause → FailureKind
  | .noModule | .invalid _ | .noBufferName | .notIdentifier .. => .invalidModule
  | .noLanguage => .internal
  | .reserved .. => .reservedName
  | .collision .. => .nameCollision
  | .unsupported _ => .unsupportedPayload

def text : Cause → String
  | .noModule => "module is nil"
  | .noLanguage => "no target"
  | .invalid errors => ValidationError.summary errors
  | .noBufferName => "no buffer name"
  | .notIdentifier role name =>
    role.name ++ " name " ++ Text.quoted name ++ " is not an identifier"
  | .reserved role name language =>
    role.name ++ " name " ++ Text.quoted name ++ " is reserved in " ++ language.name
  | .collision name origin previous =>
    "generated name " ++ name ++ " of " ++ origin.text ++ " collides with " ++ previous.text
  | .unsupported reason => reason

end Cause

structure Failure where
  cause : Cause
  type : String := ""
  variant : String := ""
  deriving DecidableEq, Inhabited

namespace Failure

def report (f : Failure) : Report :=
  { kind := f.cause.kind, type := f.type, variant := f.variant, text := f.cause.text }

def message (f : Failure) : String := f.report.message

def validation? (f : Failure) : Option (List ValidationError) :=
  match f.cause with
  | .invalid errors => some errors
  | _ => none

end Failure

end WordLayout.Shader
