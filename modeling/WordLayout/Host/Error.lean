import WordLayout.Module

namespace WordLayout.Host

inductive Direction
  | read
  | write
  deriving DecidableEq, Inhabited

def Direction.name : Direction → String
  | .read => "read"
  | .write => "write"

structure Report where
  direction : String
  kind : String
  path : List String := []
  detail : String := ""
  deriving DecidableEq, Inhabited

namespace Report

def message (r : Report) : String :=
  "[" ++ r.direction ++ "] " ++ r.kind ++
    (if r.path.isEmpty then "" else " at " ++ ".".intercalate r.path) ++
    (if r.detail = "" then "" else ": " ++ r.detail)

def isA (r : Report) (direction kind : String) : Bool :=
  r.kind == kind && (direction == "" || direction == r.direction)

end Report

inductive Cause
  | noDefinition (target : Handle)
  | notStruct (name : String)
  | notUnion (name : String)
  | misaligned (offset : UInt32)
  | outOfBounds (offset size : UInt32) (words : Nat)
  | invalidTag (tag : UInt32) (variants : Nat)
  | unsupportedPayload (reason : String)
  | noPayload
  | missingPayload
  | wrongPayload (given wanted : String)
  | fieldCount (given wanted : Nat)
  | wrongType (wanted given : String)
  deriving DecidableEq, Inhabited

namespace Cause

def kind : Cause → String
  | .noDefinition _ | .notStruct _ | .notUnion _ => "invalid_definition"
  | .misaligned _ => "misaligned_reference"
  | .outOfBounds .. => "out_of_bounds"
  | .invalidTag .. => "invalid_tag"
  | .unsupportedPayload _ => "unsupported_payload"
  | .noPayload | .missingPayload | .wrongPayload .. | .wrongType .. => "type_mismatch"
  | .fieldCount .. => "field_count_mismatch"

def detail : Cause → String
  | .noDefinition target => "no definition " ++ toString target.toNat
  | .notStruct name => name ++ " is not a struct"
  | .notUnion name => name ++ " is not a union"
  | .misaligned offset => "offset " ++ toString offset.toNat ++ " is not word aligned"
  | .outOfBounds offset size words =>
    "bytes [" ++ toString offset.toNat ++ ", " ++ toString (offset.toNat + size.toNat) ++
      ") exceed buffer of " ++ toString words ++ " words"
  | .invalidTag tag variants =>
    "tag " ++ toString tag.toNat ++ ", union has " ++ toString variants ++ " variants"
  | .unsupportedPayload reason => reason
  | .noPayload => "variant has no payload"
  | .missingPayload => "missing payload"
  | .wrongPayload given wanted => "payload is " ++ given ++ ", want " ++ wanted
  | .fieldCount given wanted =>
    "got " ++ toString given ++ " fields, want " ++ toString wanted
  | .wrongType wanted given => "want " ++ wanted ++ ", got " ++ given

end Cause

structure Error where
  direction : Direction
  cause : Cause
  path : List String := []
  deriving DecidableEq, Inhabited

def Error.report (e : Error) : Report :=
  { direction := e.direction.name, kind := e.cause.kind, path := e.path, detail := e.cause.detail }

/-- How an operation ends without a result. Only modules that validation rejects, or whose member
ends wrap around, can lead outside the words of a struct or into a nesting without end. -/
inductive Fault
  | refused (error : Error)
  | outsideWords
  | endless
  deriving DecidableEq, Inhabited

end WordLayout.Host
