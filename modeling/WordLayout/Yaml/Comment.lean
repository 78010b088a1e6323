import WordLayout.Yaml.Error

namespace WordLayout.Yaml

inductive CommentKind
  | head
  | line
  | foot
  deriving DecidableEq, Inhabited

/-- A comment goes with the first token that does not start before `token`. It stands between
`start` and `stop`, and the white space before it starts at `scan`. -/
structure Comment where
  kind : CommentKind
  text : List Char
  token : Mark
  start : Mark
  stop : Mark := {}
  scan : Mark := {}
  deriving DecidableEq, Inhabited

namespace Comment

def addHead (head : List Char) (c : Comment) : List Char :=
  if c.kind ≠ .head then head
  else if head.isEmpty then c.text
  else head ++ '\n' :: c.text

def unfold (index : Nat) (blockEnd : Bool) : List Char → List Comment → List Char × List Comment
  | head, [] => (head, [])
  | head, c :: cs =>
    if index < c.token.index || (blockEnd && c.kind == .head) then (head, c :: cs)
    else unfold index blockEnd (addHead head c) cs

def blockPlace (column : Nat) : Nat → Mark → List Comment → Mark
  | _, place, [] => place
  | index, place, c :: cs =>
    if c.stop.index < index then place
    else blockPlace column c.scan.index (if c.start.column = column then c.start else place) cs

def afterEmptyLine : List Char → List Char
  | '\n' :: '\n' :: _ => []
  | c :: cs => c :: afterEmptyLine cs
  | [] => []

def contentHead (head : List Char) : List Char :=
  match head.reverse with
  | '\n' :: _ => []
  | reversed => (afterEmptyLine reversed).reverse

end Comment

end WordLayout.Yaml
