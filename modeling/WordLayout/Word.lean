namespace WordLayout.Word

def shiftLeft (w : UInt32) (n : Nat) : UInt32 :=
  if n < 32 then w <<< UInt32.ofNat n else 0

def shiftRightSigned (w : UInt32) (n : Nat) : UInt32 :=
  ⟨w.toBitVec.sshiftRight (min n 32)⟩

def lowMask (bytes : UInt32) : UInt32 := shiftLeft 1 (bytes.toNat * 8) - 1

/-- The signed value of the `bitWidth` wide field that starts `bitOffset` bits into `raw`. A field
that ends at the top needs one arithmetic shift; any other is first moved up to the top. -/
def signExtend (raw : UInt32) (bitOffset bitWidth : UInt64) : Int32 :=
  if 32 ≤ bitOffset + bitWidth then
    (shiftRightSigned raw bitOffset.toNat).toInt32
  else
    let up := 32 - bitOffset - bitWidth
    (shiftRightSigned (shiftLeft raw up.toNat) (32 - bitWidth).toNat).toInt32

end WordLayout.Word
