import WordLayout.Terminal.Cluster

/-!
How a terminal takes the bytes of a line: most are shown, some are executed, and others belong to
control sequences, which start with the byte 27 or with one above 127 and show nothing.
-/

namespace WordLayout.Terminal

/-- Where a byte stands: among the text, in a sequence with parameters (`csi`), or in one of the
sequences with a text (`dcs`, `osc` and others). -/
inductive Mode
  | ground
  | escape
  | escapeIntermediate
  | csiStart
  | csiParameter
  | csiIntermediate
  | dcsStart
  | dcsParameter
  | dcsIntermediate
  | dcsText
  | oscText
  | otherText
  deriving DecidableEq, Inhabited

inductive Effect
  | show_
  | execute
  | collect
  deriving DecidableEq, Inhabited

namespace Mode

def common (n : Nat) : Option (Effect × Mode) :=
  if n = 0x1b then some (.collect, .escape)
  else if n = 0x90 then some (.collect, .dcsStart)
  else if n = 0x98 || n = 0x9e || n = 0x9f then some (.collect, .otherText)
  else if n = 0x9b then some (.collect, .csiStart)
  else if n = 0x9d then some (.collect, .oscText)
  else if n = 0x18 || n = 0x1a || (0x80 ≤ n && n ≤ 0x9c) then some (.execute, .ground)
  else if 0xc2 ≤ n && n ≤ 0xf4 then none
  else some (.collect, .ground)

def isPlainControl (n : Nat) : Bool := n < 0x20 && n ≠ 0x18 && n ≠ 0x1a && n ≠ 0x1b

def inSequence (m : Mode) (control : Effect) (n : Nat) (rule : Mode) : Option (Effect × Mode) :=
  if isPlainControl n then some (control, m)
  else if n = 0x7f then some (.collect, m)
  else if 0x20 ≤ n && n ≤ 0x7e then some (.collect, rule)
  else common n

def inText (m : Mode) (n : Nat) : Option (Effect × Mode) :=
  if n = 0x1b then some (.collect, .escape)
  else if n = 0x9c || n = 0x18 || n = 0x1a then some (.collect, .ground)
  else some (.collect, m)

def ofEscape (n : Nat) : Mode :=
  if n ≤ 0x2f then .escapeIntermediate
  else if n = 0x5b then .csiStart
  else if n = 0x50 then .dcsStart
  else if n = 0x5d then .oscText
  else if n = 0x58 || n = 0x5e || n = 0x5f then .otherText
  else .ground

def step (m : Mode) (b : UInt8) : Option (Effect × Mode) :=
  let n := b.toNat
  match m with
  | .ground =>
    if isPlainControl n || n = 0x7f then some (.execute, .ground)
    else if 0x20 ≤ n && n ≤ 0x7e then some (.show_, .ground)
    else common n
  | .escape => inSequence m .execute n (ofEscape n)
  | .escapeIntermediate => inSequence m .execute n (if n ≤ 0x2f then m else .ground)
  | .csiStart | .csiParameter =>
    inSequence m .execute n
      (if n ≤ 0x2f then .csiIntermediate else if n ≤ 0x3f then .csiParameter else .ground)
  | .csiIntermediate => inSequence m .execute n (if n ≤ 0x2f then m else .ground)
  | .dcsStart =>
    if (8 ≤ n && n ≤ 13) || n = 0x1b then some (.collect, .dcsText)
    else
      inSequence m .collect n
        (if n ≤ 0x2f then .dcsIntermediate else if n ≤ 0x3f then .dcsParameter else .dcsText)
  | .dcsParameter =>
    inSequence m .collect n
      (if n ≤ 0x2f then .dcsIntermediate else if n ≤ 0x3f then m else .dcsText)
  | .dcsIntermediate => inSequence m .collect n (if n ≤ 0x2f then m else .dcsText)
  | .dcsText => inText m n
  | .oscText => if n = 0x07 then some (.collect, .ground) else inText m n
  | .otherText => if n < 0x80 || n = 0x9c then inText m n else common n

end Mode

inductive Part
  | byte (b : UInt8) (effect : Effect)
  | cluster (k : Cluster)
  deriving DecidableEq, Inhabited

def partsFrom : Nat → Mode → List UInt8 → List Part
  | 0, _, _ => []
  | _, _, [] => []
  | fuel + 1, m, b :: bs =>
    match m.step b with
    | some (effect, m) => .byte b effect :: partsFrom fuel m bs
    | none =>
      let k := Cluster.first (b :: bs)
      .cluster k :: partsFrom fuel .ground ((b :: bs).drop k.size)

def parts (line : List UInt8) : List Part := partsFrom line.length .ground line

def Part.width : Part → Nat
  | .byte _ .show_ => 1
  | .byte .. => 0
  | .cluster k => k.width

def lineWidth (line : List UInt8) : Nat := (parts line).foldl (fun n p => n + p.width) 0

def cutFrom (room : Nat) : Nat → Bool → Mode → List UInt8 → List UInt8
  | 0, _, _, _ => []
  | _, _, _, [] => []
  | fuel + 1, full, m, b :: bs =>
    match m.step b with
    | none =>
      let k := Cluster.first (b :: bs)
      let rest := (b :: bs).drop k.size
      if full || room < k.width then cutFrom room fuel true m rest
      else (b :: bs).take k.size ++ cutFrom (room - k.width) fuel full .ground rest
    | some (.show_, next) =>
      if full || room = 0 then cutFrom room fuel true m bs
      else b :: cutFrom (room - 1) fuel full next bs
    | some (_, next) => b :: cutFrom room fuel full next bs

def cutLine (room : Nat) (line : List UInt8) : List UInt8 :=
  if lineWidth line ≤ room then line else cutFrom room line.length false .ground line

end WordLayout.Terminal
