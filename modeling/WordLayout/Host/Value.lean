import WordLayout.Module

namespace WordLayout.Host

inductive Value
  | f32 (bits : UInt32)
  | u8 (value : UInt8)
  | u16 (value : UInt16)
  | u32 (value : UInt32)
  | i8 (value : Int8)
  | i16 (value : Int16)
  | i32 (value : Int32)
  | ref (offset : UInt32)
  | vector (lanes : List Value)
  | struct (target : Handle) (fields : List Value)
  | nil
  | foreign (typeName : String)
  deriving Inhabited

namespace Value

def typeName : Value → String
  | .f32 _ => "float32"
  | .u8 _ => "uint8"
  | .u16 _ => "uint16"
  | .u32 _ => "uint32"
  | .i8 _ => "int8"
  | .i16 _ => "int16"
  | .i32 _ => "int32"
  | .ref _ => "pack.Ref"
  | .vector _ => "pack.Vector"
  | .struct .. => "pack.Struct"
  | .nil => "<nil>"
  | .foreign name => name

def ofBits (kind : ScalarKind) (bits : UInt32) : Value :=
  match kind with
  | .f32 => .f32 bits
  | .u8 => .u8 bits.toUInt8
  | .u16 => .u16 bits.toUInt16
  | .i8 => .i8 bits.toUInt8.toInt8
  | .i16 => .i16 bits.toUInt16.toInt16
  | .i32 => .i32 bits.toInt32
  | .u32 | .unknown _ => .u32 bits

def bits? : ScalarKind → Value → Option UInt32
  | .f32, .f32 b => some b
  | .u8, .u8 n => some n.toUInt32
  | .u16, .u16 n => some n.toUInt32
  | .u32, .u32 n => some n
  | .i8, .i8 n => some n.toInt32.toUInt32
  | .i16, .i16 n => some n.toInt32.toUInt32
  | .i32, .i32 n => some n.toUInt32
  | _, _ => none

end Value

structure UnionValue where
  tag : UInt32
  payload : Option Value
  deriving Inhabited

end WordLayout.Host
