import WordLayout.Module
import WordLayout.Text.Quoted

namespace WordLayout

inductive FlawKind
  | duplicateDefinition
  | duplicateMember
  | unknownType
  | forwardReference
  | cycle
  | notAStruct
  | misaligned
  | overlap
  | outOfBounds
  | sizeMismatch
  | invalidVector
  | emptyStruct
  | emptyUnion
  | unlisted (code : UInt8)
  deriving DecidableEq, Inhabited

namespace FlawKind

def all : List FlawKind :=
  [.duplicateDefinition, .duplicateMember, .unknownType, .forwardReference, .cycle, .notAStruct,
    .misaligned, .overlap, .outOfBounds, .sizeMismatch, .invalidVector, .emptyStruct, .emptyUnion]

def ofCode (code : UInt8) : FlawKind := all.getD code.toNat (.unlisted code)

def name : FlawKind → String
  | .duplicateDefinition => "DuplicateDefinition"
  | .duplicateMember => "DuplicateMember"
  | .unknownType => "UnknownType"
  | .forwardReference => "ForwardReference"
  | .cycle => "Cycle"
  | .notAStruct => "NotAStruct"
  | .misaligned => "Misaligned"
  | .overlap => "Overlap"
  | .outOfBounds => "OutOfBounds"
  | .sizeMismatch => "SizeMismatch"
  | .invalidVector => "InvalidVector"
  | .emptyStruct => "EmptyStruct"
  | .emptyUnion => "EmptyUnion"
  | .unlisted _ => "Unknown"

end FlawKind

inductive Usage
  | inline
  | reference
  deriving DecidableEq, Inhabited

namespace Usage

def name : Usage → String
  | .inline => "inline"
  | .reference => "reference"

end Usage

inductive Flaw
  | duplicateDefinition
  | missingBody
  | unalignedSize (size : UInt32)
  | emptyStruct
  | emptyUnion
  | duplicateField
  | duplicateVariant
  | unknownKind (kind : ScalarKind)
  | laneCount (lanes : UInt8)
  | missingType
  | noTarget (usage : Usage) (target : Handle)
  | unionTarget (usage : Usage) (name : String)
  | unknownName (name : String)
  | sizeMismatch (declared needed : UInt32)
  | unalignedOffset (offset align : UInt32)
  | fieldOutOfBounds (start stop size : UInt32)
  | overlap (other : String)
  | noRoomForTag (size : UInt32)
  | payloadOverTag (offset : UInt32)
  | unalignedPayload (offset : UInt32)
  | payloadOutOfBounds (start stop size : UInt32)
  | cycle (names : List String)
  | forwardReference (name : String)
  | stated (kind : FlawKind) (text : String)
  deriving DecidableEq, Inhabited

namespace Flaw

def kind : Flaw → FlawKind
  | .duplicateDefinition => .duplicateDefinition
  | .duplicateField | .duplicateVariant => .duplicateMember
  | .missingBody | .unknownKind _ | .missingType | .noTarget .. | .unknownName _ => .unknownType
  | .forwardReference _ => .forwardReference
  | .cycle _ => .cycle
  | .unionTarget .. => .notAStruct
  | .unalignedSize _ | .unalignedOffset .. | .unalignedPayload _ => .misaligned
  | .overlap _ | .payloadOverTag _ => .overlap
  | .fieldOutOfBounds .. | .noRoomForTag _ | .payloadOutOfBounds .. => .outOfBounds
  | .sizeMismatch .. => .sizeMismatch
  | .laneCount _ => .invalidVector
  | .emptyStruct => .emptyStruct
  | .emptyUnion => .emptyUnion
  | .stated kind _ => kind

def text : Flaw → String
  | .duplicateDefinition => "defined more than once"
  | .missingBody => "definition is neither a struct nor a union"
  | .unalignedSize size => "size " ++ toString size.toNat ++ " is not a multiple of 4"
  | .emptyStruct => "struct has no fields"
  | .emptyUnion => "union has no variants"
  | .duplicateField => "field declared more than once"
  | .duplicateVariant => "variant declared more than once"
  | .unknownKind kind => "unknown scalar kind " ++ toString kind.code.toNat
  | .laneCount lanes => "vector must have 1 to 4 lanes, got " ++ toString lanes.toNat
  | .missingType => "missing type"
  | .noTarget usage target =>
    usage.name ++ " target " ++ toString target.toNat ++ " does not exist"
  | .unionTarget usage name => usage.name ++ " target " ++ name ++ " is a union"
  | .unknownName name => "unknown type " ++ Text.quoted name
  | .sizeMismatch declared needed =>
    "declared size " ++ toString declared.toNat ++ ", type needs " ++ toString needed.toNat
  | .unalignedOffset offset align =>
    "offset " ++ toString offset.toNat ++ " is not a multiple of " ++ toString align.toNat
  | .fieldOutOfBounds start stop size =>
    "bytes [" ++ toString start.toNat ++ ", " ++ toString stop.toNat ++ ") exceed struct size " ++
      toString size.toNat
  | .overlap other => "overlaps field " ++ other
  | .noRoomForTag size => "size " ++ toString size.toNat ++ " cannot hold the 4-byte tag"
  | .payloadOverTag offset =>
    "payload at offset " ++ toString offset.toNat ++ " overlaps the tag word"
  | .unalignedPayload offset =>
    "payload offset " ++ toString offset.toNat ++ " is not word aligned"
  | .payloadOutOfBounds start stop size =>
    "payload bytes [" ++ toString start.toNat ++ ", " ++ toString stop.toNat ++
      ") exceed union size " ++ toString size.toNat
  | .cycle names => "inline dependency cycle " ++ " -> ".intercalate names
  | .forwardReference name => "depends on " ++ name ++ ", which is declared later"
  | .stated _ text => text

end Flaw

structure ValidationError where
  flaw : Flaw
  type : String := ""
  member : String := ""
  deriving DecidableEq, Inhabited

namespace ValidationError

def message (e : ValidationError) : String :=
  let kind := e.flaw.kind.name
  if e.type = "" then kind ++ ": " ++ e.flaw.text
  else if e.member = "" then kind ++ ": in type " ++ e.type ++ ": " ++ e.flaw.text
  else kind ++ ": in type " ++ e.type ++ ", member " ++ e.member ++ ": " ++ e.flaw.text

def summary : List ValidationError → String
  | [] => "no errors"
  | [e] => e.message
  | e :: rest => e.message ++ " (and " ++ toString rest.length ++ " more)"

end ValidationError

end WordLayout
