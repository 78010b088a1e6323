import WordLayout.Text.Identifier

namespace WordLayout.Text

inductive NumberFault
  | invalidSyntax
  | outOfRange
  deriving DecidableEq, Inhabited

def NumberFault.text : NumberFault → String
  | .invalidSyntax => "invalid syntax"
  | .outOfRange => "value out of range"

def digitValue? (c : Char) : Option Nat :=
  if isAsciiDigit c then some (c.toNat - 48)
  else if 'a' ≤ c && c ≤ 'z' then some (c.toNat - 87)
  else if 'A' ≤ c && c ≤ 'Z' then some (c.toNat - 55)
  else none

/-- Reads digits from the left. The first digit that leads past `limit` or is no digit of the base
decides the fault. -/
def readDigits (base limit : Nat) (cs : List Char) : Except NumberFault Nat :=
  cs.foldlM (fun n c =>
    match digitValue? c with
    | none => .error .invalidSyntax
    | some d =>
      if base ≤ d then .error .invalidSyntax
      else if limit < n * base + d then .error .outOfRange
      else .ok (n * base + d)) 0

def splitBase (cs : List Char) : Nat × List Char :=
  match cs with
  | '0' :: mark :: d :: rest =>
    if mark == 'b' || mark == 'B' then (2, d :: rest)
    else if mark == 'o' || mark == 'O' then (8, d :: rest)
    else if mark == 'x' || mark == 'X' then (16, d :: rest)
    else (8, mark :: d :: rest)
  | '0' :: rest => (8, rest)
  | _ => (10, cs)

inductive Before
  | start
  | digit
  | underscore
  | other
  deriving DecidableEq, Inhabited

def underscoresFrom (hex : Bool) : Before → List Char → Bool
  | before, [] => before != .underscore
  | before, c :: cs =>
    if isAsciiDigit c || (hex && (('a' ≤ c && c ≤ 'f') || ('A' ≤ c && c ≤ 'F'))) then
      underscoresFrom hex .digit cs
    else if c == '_' then before == .digit && underscoresFrom hex .underscore cs
    else before != .underscore && underscoresFrom hex .other cs

def underscoresSeparate (cs : List Char) : Bool :=
  match cs with
  | '0' :: mark :: rest =>
    if "bBoO".toList.contains mark then underscoresFrom false .digit rest
    else if mark == 'x' || mark == 'X' then underscoresFrom true .digit rest
    else underscoresFrom false .start cs
  | _ => underscoresFrom false .start cs

def readUnsigned (bits : Nat) (s : String) : Except NumberFault Nat :=
  let cs := s.toList
  if cs.isEmpty then .error .invalidSyntax
  else
    let (base, digits) := splitBase cs
    match readDigits base (Nat.pow 2 bits - 1) (digits.filter (· != '_')) with
    | .error f => .error f
    | .ok n => if underscoresSeparate cs then .ok n else .error .invalidSyntax

def splitSign (cs : List Char) : Bool × List Char :=
  match cs with
  | '-' :: rest => (true, rest)
  | '+' :: rest => (false, rest)
  | _ => (false, cs)

def readSigned? (read : List Char → Option Nat) (cs : List Char) : Option Int :=
  let (negative, digits) := splitSign cs
  match read digits with
  | none => none
  | some n =>
    if negative then (if n ≤ 0x8000000000000000 then some (-n) else none)
    else if n < 0x8000000000000000 then some n
    else none

structure Decimal where
  mantissa : Nat
  exponent : Int
  deriving DecidableEq, Inhabited

namespace Decimal

def quotient (d : Decimal) : Nat × Nat :=
  if 0 ≤ d.exponent then (d.mantissa * Nat.pow 10 d.exponent.toNat, 1)
  else (d.mantissa, Nat.pow 10 (-d.exponent).toNat)

def roundDiv (n d : Nat) : Nat :=
  let q := n / d
  let r := n % d
  if d < 2 * r ∨ (d = 2 * r ∧ q % 2 = 1) then q + 1 else q

/-- The whole part of the fraction after it is rounded to 53 binary digits; none if the fraction
is too large for 64-bit floating point. -/
def whole? (d : Decimal) : Option Nat :=
  let digits := (Nat.toDigits 10 d.mantissa).length
  if d.mantissa = 0 ∨ digits + d.exponent < 0 then some 0
  else if 310 < digits + d.exponent then none
  else
    let (n, den) := d.quotient
    let size := if n < den then 0 else Nat.log2 (n / den) + 1
    if size ≤ 53 then some (roundDiv (n * Nat.pow 2 (53 - size)) den / Nat.pow 2 (53 - size))
    else
      let rounded := roundDiv n (den * Nat.pow 2 (size - 53)) * Nat.pow 2 (size - 53)
      if rounded < Nat.pow 2 1024 then some rounded else none

end Decimal

def readDecimal? (cs : List Char) : Option Decimal :=
  let whole := cs.takeWhile isAsciiDigit
  let (fraction, rest) :=
    match cs.dropWhile isAsciiDigit with
    | '.' :: more => (more.takeWhile isAsciiDigit, more.dropWhile isAsciiDigit)
    | more => ([], more)
  let digits := whole ++ fraction
  let mantissa := digits.foldl (fun n c => n * 10 + (c.toNat - 48)) 0
  let scale : Int := fraction.length
  if digits.isEmpty then none
  else
    match rest with
    | [] => some ⟨mantissa, -scale⟩
    | e :: more =>
      let (negative, exponent) := splitSign more
      if (e == 'e' || e == 'E') && !exponent.isEmpty && exponent.all isAsciiDigit then
        let n : Nat := exponent.foldl (fun n c => min 100000 (n * 10 + (c.toNat - 48))) 0
        some ⟨mantissa, (if negative then -(n : Int) else n) - scale⟩
      else none

end WordLayout.Text
