import WordLayout.Text.Identifier

namespace WordLayout.Yaml.Timestamp

def shortNumber? : List Char → Option (Nat × List Char)
  | a :: b :: cs =>
    if !Text.isAsciiDigit a then none
    else if Text.isAsciiDigit b then some ((a.toNat - 48) * 10 + (b.toNat - 48), cs)
    else some (a.toNat - 48, b :: cs)
  | [a] => if Text.isAsciiDigit a then some (a.toNat - 48, []) else none
  | [] => none

def expect? (c : Char) : List Char → Option (List Char)
  | x :: cs => if x == c then some cs else none
  | [] => none

def isLeap (year : Nat) : Bool := year % 4 == 0 && (year % 100 != 0 || year % 400 == 0)

def daysIn (year month : Nat) : Nat :=
  match month with
  | 2 => if isLeap year then 29 else 28
  | 4 | 6 | 9 | 11 => 30
  | _ => 31

def date? (cs : List Char) : Option (List Char) := do
  let digits := cs.takeWhile Text.isAsciiDigit
  if digits.length ≠ 4 then none
  let year := digits.foldl (fun n c => n * 10 + (c.toNat - 48)) 0
  let (month, cs) ← shortNumber? (← expect? '-' (cs.drop 4))
  let (day, cs) ← shortNumber? (← expect? '-' cs)
  if 1 ≤ month ∧ month ≤ 12 ∧ 1 ≤ day ∧ day ≤ daysIn year month then some cs else none

def fraction (cs : List Char) : List Char :=
  match cs with
  | point :: d :: rest =>
    if (point == '.' || point == ',') && Text.isAsciiDigit d then rest.dropWhile Text.isAsciiDigit
    else cs
  | _ => cs

def time? (cs : List Char) : Option (List Char) := do
  let (hour, cs) ← shortNumber? cs
  let (minute, cs) ← shortNumber? (← expect? ':' cs)
  let (second, cs) ← shortNumber? (← expect? ':' cs)
  if hour < 24 ∧ minute < 60 ∧ second < 60 then some (fraction cs) else none

def isZone : List Char → Bool
  | ['Z'] => true
  | [sign, a, b, ':', c, d] =>
    (sign == '+' || sign == '-') && [a, b, c, d].all Text.isAsciiDigit &&
      (a.toNat - 48) * 10 + (b.toNat - 48) ≤ 24 && (c.toNat - 48) * 10 + (d.toNat - 48) ≤ 60
  | _ => false

def isTimestamp (s : String) : Bool :=
  match date? s.toList with
  | none => false
  | some [] => true
  | some (c :: cs) =>
    if c == 'T' || c == 't' then ((time? cs).map isZone).getD false
    else if c == ' ' then (time? (cs.dropWhile (· == ' '))) == some []
    else false

end WordLayout.Yaml.Timestamp
