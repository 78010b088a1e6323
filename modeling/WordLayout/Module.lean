import WordLayout.Scalar

/-!
Layout modules: named structs and unions with the byte offset and size of every member. All
offsets and sizes are 32-bit words and their arithmetic wraps around. Definitions refer to each
other by handle, the position in the module's list.
-/

namespace WordLayout

abbrev Handle := UInt32

inductive Ty
  | scalar (kind : ScalarKind)
  | vector (kind : ScalarKind) (lanes : UInt8)
  | inline (target : Handle)
  | ref (target : Handle)
  | missing
  deriving DecidableEq, Inhabited

structure Field where
  name : String
  offset : UInt32
  ty : Ty
  size : UInt32
  deriving DecidableEq, Inhabited

structure PayloadItem where
  offset : UInt32
  ty : Ty
  size : UInt32
  deriving DecidableEq, Inhabited

inductive Payload
  | empty
  | struct (offset : UInt32) (target : Handle)
  | unsupported (items : List PayloadItem) (reason : String)
  | missing
  deriving DecidableEq, Inhabited

structure Variant where
  name : String
  payload : Payload
  deriving DecidableEq, Inhabited

inductive Body
  | struct (fields : List Field)
  | union (variants : List Variant)
  | missing
  deriving DecidableEq, Inhabited

structure TypeDef where
  name : String
  size : UInt32
  body : Body
  deriving DecidableEq, Inhabited

/-- A list of definitions over one buffer of words. `name` is the buffer's identifier in emitted
code. A module that was built from names keeps them in `index`. -/
structure Module where
  name : String
  writable : Bool
  defs : List TypeDef
  index : Option (List (String × Handle)) := none
  deriving DecidableEq, Inhabited

namespace TypeDef

def isUnion (d : TypeDef) : Bool :=
  match d.body with
  | .union _ => true
  | _ => false

end TypeDef

namespace Module

def lookup (m : Module) (name : String) : Option Handle :=
  match m.index with
  | some index => index.lookup name
  | none => (m.defs.findIdx? (·.name == name)).map UInt32.ofNat

def def? (m : Module) (h : Handle) : Option TypeDef := m.defs[h.toNat]?

def nameOf (m : Module) (h : Handle) : String := ((m.def? h).map (·.name)).getD ""

def sizeOf (m : Module) : Ty → UInt32
  | .scalar k => k.size
  | .vector k lanes => k.size * lanes.toUInt32
  | .ref _ => 4
  | .inline h => ((m.def? h).map (·.size)).getD 0
  | .missing => 0

end Module

end WordLayout
