namespace WordLayout.Text

def inRanges (ranges : Array (Nat × Nat)) (c : Nat) : Nat → Nat → Nat → Bool
  | 0, _, _ => false
  | fuel + 1, lo, hi =>
    if lo < hi then
      let mid := (lo + hi) / 2
      match ranges[mid]? with
      | none => false
      | some (first, last) =>
        if c < first then inRanges ranges c fuel lo mid
        else if last < c then inRanges ranges c fuel (mid + 1) hi
        else true
    else false

def isInRanges (ranges : Array (Nat × Nat)) (c : Nat) : Bool :=
  inRanges ranges c ranges.size 0 ranges.size

end WordLayout.Text
