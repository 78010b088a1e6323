namespace WordLayout

inductive ScalarKind
  | f32
  | u8
  | u16
  | u32
  | i8
  | i16
  | i32
  | unknown (code : UInt8)
  deriving DecidableEq, Inhabited

namespace ScalarKind

def all : List ScalarKind := [.f32, .u8, .u16, .u32, .i8, .i16, .i32]

def ofCode (code : UInt8) : ScalarKind := all.getD code.toNat (.unknown code)

def code : ScalarKind → UInt8
  | .f32 => 0
  | .u8 => 1
  | .u16 => 2
  | .u32 => 3
  | .i8 => 4
  | .i16 => 5
  | .i32 => 6
  | .unknown c => c

def name : ScalarKind → String
  | .f32 => "f32"
  | .u8 => "u8"
  | .u16 => "u16"
  | .u32 => "u32"
  | .i8 => "i8"
  | .i16 => "i16"
  | .i32 => "i32"
  | .unknown c => "scalar(" ++ toString c.toNat ++ ")"

def ofName? (s : String) : Option ScalarKind := all.find? (·.name == s)

def size : ScalarKind → UInt32
  | .u8 | .i8 => 1
  | .u16 | .i16 => 2
  | _ => 4

def isFloat : ScalarKind → Bool
  | .f32 => true
  | _ => false

def isSigned : ScalarKind → Bool
  | .i8 | .i16 | .i32 => true
  | _ => false

def isKnown : ScalarKind → Bool
  | .unknown _ => false
  | _ => true

theorem ofCode_code {k : ScalarKind} (h : k.isKnown = true) : ofCode k.code = k := by
  cases k <;> first | rfl | simp [isKnown] at h

theorem ofName?_name {k : ScalarKind} (h : k.isKnown = true) : ofName? k.name = some k := by
  cases k with
  | unknown c => simp [isKnown] at h
  | _ => decide

theorem size_pos (k : ScalarKind) : 0 < k.size.toNat := by
  cases k <;> simp [size]

theorem size_le_four (k : ScalarKind) : k.size.toNat ≤ 4 := by
  cases k <;> simp [size]

end ScalarKind

end WordLayout
