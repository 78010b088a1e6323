import WordLayout.Terminal.Wrap

namespace WordLayout.Terminal

def plainFeeds : List UInt8 → List UInt8
  | 13 :: 10 :: bs => 10 :: plainFeeds bs
  | b :: bs => b :: plainFeeds bs
  | [] => []

def splitLines : List UInt8 → List (List UInt8)
  | [] => [[]]
  | b :: bs =>
    if b = 10 then [] :: splitLines bs
    else
      match splitLines bs with
      | [] => [[b]]
      | line :: lines => (b :: line) :: lines

def widest (lines : List (List UInt8)) : Nat :=
  lines.foldl (fun w line => max w (lineWidth line)) 0

def padTo (cells : Nat) (line : List UInt8) : List UInt8 :=
  line ++ List.replicate (cells - lineWidth line) 32

def padAll (cells : Nat) (lines : List (List UInt8)) : List (List UInt8) :=
  let w := max cells (widest lines)
  lines.map (padTo w)

structure Table where
  headers : List String
  rows : List (List String)
  deriving DecidableEq, Inhabited

namespace Table

def column (t : Table) (i : Nat) : List String :=
  t.headers.getD i "" :: t.rows.map (·.getD i "")

def widths (t : Table) : List Nat :=
  (List.range t.headers.length).map fun i =>
    (t.column i).foldl (fun w s => max w (widest (splitLines (Text.toBytes s)))) 0

def rule (left middle right : String) (widths : List Nat) : List UInt8 :=
  Text.toBytes
    (left ++ middle.intercalate (widths.map fun w => String.ofList (List.replicate (w + 2) '─')) ++
      right)

def cellHeight (width : Nat) (cell : String) : Nat :=
  if width = 0 then 1
  else
    (splitLines (plainFeeds (Text.toBytes cell))).foldl (fun h line => h + lineHeight width line) 0

def cellLines (width height : Nat) (cell : String) : List (List UInt8) :=
  let text := plainFeeds (Text.toBytes (Text.expandTabs cell))
  let lines := (splitLines (wrap width text)).map ([32] ++ · ++ [32])
  let lines := lines ++ List.replicate (height - lines.length) []
  ((padAll (width + 2) lines).map (cutLine (width + 2))).take height

def beside (height : Nat) (blocks : List (List (List UInt8))) : List (List UInt8) :=
  let blocks := blocks.map (padAll 0)
  (List.range height).map fun i => blocks.flatMap fun block => block.getD i []

def rowLines (widths : List Nat) (row : List String) : List (List UInt8) :=
  let cells := widths.zip row
  let height := cells.foldl (fun h (w, cell) => max h (cellHeight w cell)) 1
  let border := List.replicate height (Text.toBytes "│")
  beside height (border :: cells.flatMap fun (w, cell) => [cellLines w height cell, border])

def lines (t : Table) : List (List UInt8) :=
  let ws := t.widths
  padAll 0
    ([rule "┌" "┬" "┐" ws] ++ rowLines ws t.headers ++ [rule "├" "┼" "┤" ws] ++
      t.rows.flatMap (rowLines ws) ++ [rule "└" "┴" "┘" ws])

def render (t : Table) : String := Text.ofBytes (List.intercalate [10] t.lines)

end Table

end WordLayout.Terminal
