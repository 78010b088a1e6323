/-!
Texts as bytes. A text may hold bytes that belong to no character: each is kept as a character of
its own, from a part of the last plane that is reserved for private use, and is written as the byte
again.
-/

namespace WordLayout.Text

/-- The characters that stand for bytes lie at this code point and the byte. -/
def strayBase : Nat := 0x10f700

def isStray (c : Char) : Bool := strayBase + 0x80 ≤ c.toNat && c.toNat ≤ strayBase + 0xff

def ofStray (b : UInt8) : Char := Char.ofNat (strayBase + b.toNat)

def stray? (c : Char) : Option UInt8 :=
  if isStray c then some (UInt8.ofNat (c.toNat - strayBase)) else none

def replacement : Char := Char.ofNat 0xfffd

def withoutStrays (s : String) : String := s.map fun c => if isStray c then replacement else c

def isContinuation (b : UInt8) : Bool := b &&& 0xc0 == 0x80

def decodeFirst? : List UInt8 → Option (Char × Nat)
  | [] => none
  | b0 :: rest =>
    let n0 := b0.toNat
    if n0 < 0x80 then some (Char.ofNat n0, 1)
    else if 0xc2 ≤ n0 && n0 ≤ 0xdf then
      match rest with
      | b1 :: _ =>
        if isContinuation b1 then some (Char.ofNat ((n0 - 0xc0) * 64 + (b1.toNat - 0x80)), 2)
        else none
      | [] => none
    else if 0xe0 ≤ n0 && n0 ≤ 0xef then
      match rest with
      | b1 :: b2 :: _ =>
        let n := (n0 - 0xe0) * 4096 + (b1.toNat - 0x80) * 64 + (b2.toNat - 0x80)
        if isContinuation b1 && isContinuation b2 && 0x800 ≤ n && !(0xd800 ≤ n && n ≤ 0xdfff) then
          some (Char.ofNat n, 3)
        else none
      | _ => none
    else if 0xf0 ≤ n0 && n0 ≤ 0xf4 then
      match rest with
      | b1 :: b2 :: b3 :: _ =>
        let n := (n0 - 0xf0) * 262144 + (b1.toNat - 0x80) * 4096 + (b2.toNat - 0x80) * 64 +
          (b3.toNat - 0x80)
        if isContinuation b1 && isContinuation b2 && isContinuation b3 && 0x10000 ≤ n &&
            n ≤ 0x10ffff then some (Char.ofNat n, 4)
        else none
      | _ => none
    else none

def decode : List UInt8 → List Char
  | [] => []
  | b :: rest =>
    match decodeFirst? (b :: rest) with
    | some (c, n) => c :: decode (rest.drop (n - 1))
    | none => ofStray b :: decode rest
termination_by bs => bs.length
decreasing_by all_goals simp only [List.length_cons, List.length_drop]; omega

def ofBytes (bs : List UInt8) : String := String.ofList (decode bs)

def encodeChar (c : Char) : List UInt8 :=
  match stray? c with
  | some b => [b]
  | none => c.toString.toUTF8.toList

def toBytes (s : String) : List UInt8 :=
  if s.any isStray then s.toList.flatMap encodeChar else s.toUTF8.toList

def byteLength (s : String) : Nat := (toBytes s).length

def takeBytes (n : Nat) (s : String) : String := ofBytes ((toBytes s).take n)

end WordLayout.Text
