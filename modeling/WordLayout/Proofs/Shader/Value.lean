import Mathlib
import WordLayout.Shader.Program

namespace WordLayout.Shader

inductive Value
  | uint (bits : UInt32)
  | int (bits : UInt32)
  | float (bits : UInt32)
  | vector (lanes : List Value)
  | struct (type : String) (members : List (String × Value))
  deriving Inhabited

def Value.ofKind (k : ScalarKind) (bits : UInt32) : Value :=
  if k.isFloat then .float bits else if k.isSigned then .int bits else .uint bits

def Value.isKind (k : ScalarKind) : Value → Bool
  | .float _ => k.isFloat
  | .int _ => !k.isFloat && k.isSigned
  | .uint _ => !k.isFloat && !k.isSigned
  | _ => false

namespace Value

def handle (name : String) (offset : UInt32) : Value :=
  .struct (name ++ "Ref") [("offset", .uint offset)]

def member? : Value → String → Option Value
  | .struct _ members, x => members.lookup x
  | .vector lanes, x => do lanes[← ["x", "y", "z", "w"].idxOf? x]?
  | _, _ => none

@[simp]
theorem handle_member? (name : String) (offset : UInt32) :
    (handle name offset).member? "offset" = some (.uint offset) := rfl

theorem vector_member? (vs : List Value) {lane : Nat} (h : lane < 4) :
    (vector vs).member? (laneName lane) = vs[lane]? := by
  match lane, h with
  | 0, _ | 1, _ | 2, _ | 3, _ => rfl

end Value

def TypeName.admits : TypeName → Value → Bool
  | .scalar k, v => v.isKind k
  | .vector k lanes, .vector vs => vs.length == lanes.toNat && vs.all (Value.isKind k)
  | .struct name, .struct type _ => type == name
  | .handle name, .struct type _ => type == name ++ "Ref"
  | _, _ => false

def TypeName.construct (type : TypeName) (lanes : List Value) : Option Value :=
  match type, lanes with
  | .scalar k, [v] => if v.isKind k then some v else none
  | .vector k n, vs => if (TypeName.vector k n).admits (.vector vs) then some (.vector vs) else none
  | _, _ => none

def storeAt (words : Array UInt32) (i w : UInt32) : Option (Array UInt32) :=
  if i.toNat < words.size then some (words.set! i.toNat w) else none

structure Local where
  type : String
  members : List (String × Option Value)

namespace Local

def get? (s : Local) (name : String) : Option Value := (s.members.lookup name).join

def set (s : Local) (name : String) (v : Value) : Local :=
  { s with members := s.members.map fun p => if p.1 = name then (p.1, some v) else p }

def value? (s : Local) : Option Value := do
  some (.struct s.type (← s.members.mapM fun p => p.2.map (p.1, ·)))

end Local

end WordLayout.Shader
