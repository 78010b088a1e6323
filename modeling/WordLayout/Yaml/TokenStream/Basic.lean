import WordLayout.Yaml.Comment
import WordLayout.Yaml.Cursor
import WordLayout.Yaml.Token

/-!
The stream of tokens of a text: its state, and the rules of keys and indentation. A key without an
indicator is recognised by the colon that follows it on its line; its token is then put in front
of it. Blocks start where the indentation grows and end where it shrinks.
-/

namespace WordLayout.Yaml

/-- A place where a key without an indicator may start; `number` is the number of the token there.
A key that stands at the indentation of its block is `required`: without a colon it is a problem. -/
structure KeyStart where
  possible : Bool := false
  required : Bool := false
  number : Nat := 0
  mark : Mark := {}
  deriving DecidableEq, Inhabited

structure TokenStream where
  cursor : Cursor
  trouble : Option Trouble := none
  started : Bool := false
  indent : Int := -1
  indents : List Int := []
  level : Nat := 0
  keyStart : KeyStart := {}
  outerKeys : List KeyStart := []
  waiting : List (Nat × Nat) := []
  keyAllowed : Bool := true
  queue : List Token := []
  taken : Nat := 0
  comments : List Comment := []
  head : List Char := []
  deriving Inhabited

abbrev Tokens := EStateM Trouble TokenStream

namespace TokenStream

def ofInput (input : Input) : TokenStream := { cursor := .ofInput input }

def mark (s : TokenStream) : Mark := s.cursor.mark

def inFlow (s : TokenStream) : Bool := s.level != 0

def nextNumber (s : TokenStream) : Nat := s.taken + s.queue.length

def push (s : TokenStream) (t : Token) : TokenStream := { s with queue := s.queue ++ [t] }

def insertBefore (s : TokenStream) (number : Nat) (t : Token) : TokenStream :=
  if number < s.taken then s.push t
  else
    let at_ := number - s.taken
    { s with queue := s.queue.take at_ ++ t :: s.queue.drop at_ }

def isStale (s : TokenStream) (k : KeyStart) : Bool :=
  k.mark.line < s.mark.line || k.mark.index + 1024 < s.mark.index

def unlist (s : TokenStream) (number : Nat) : TokenStream :=
  { s with waiting := s.waiting.filter (·.1 ≠ number) }

def troubleOf (s : TokenStream) : Refusal → Trouble
  | .bytes problem => .ofBytes s.trouble problem
  | .token problem context mark => { layer := .token, problem, context, mark }

/-- Leaves the blocks that are indented deeper than `column`. The end of a block stands at `place`,
or at a comment that is indented like the block and directly precedes that place. -/
def unrollFrom (column : Int) : Mark → List Int → TokenStream → TokenStream
  | _, [], s => s
  | place, outer :: indents, s =>
    if s.indent ≤ column then s
    else
      let place := Comment.blockPlace (s.indent + 1).toNat place.index place s.comments.reverse
      unrollFrom column place indents
        ({ s with indent := outer, indents }.push ⟨.blockEnd, place, place⟩)

def unroll (s : TokenStream) (column : Int) (scan : Mark) : TokenStream :=
  if s.inFlow then s
  else unrollFrom column { scan with index := scan.index - 1 } s.indents s

end TokenStream

namespace Tokens

def fail {α : Type} (r : Refusal) : Tokens α := do
  let s ← get
  let trouble := s.troubleOf r
  set { s with trouble := some trouble }
  throw trouble

def refuse {α : Type} (problem : Problem) (context : Mark) : Tokens α := do
  fail (.token problem context (← get).mark)

def scan {α : Type} (step : Scan α) : Tokens α := do
  let s ← get
  match step.run s.cursor with
  | .ok a cursor =>
    set { s with cursor }
    pure a
  | .error r cursor =>
    set { s with cursor }
    fail r

def tryDemand (n : Nat) : Tokens Bool := do
  let s ← get
  match (Scan.demand n).run s.cursor with
  | .ok _ cursor =>
    set { s with cursor }
    pure true
  | .error r cursor =>
    set { s with cursor, trouble := some (s.troubleOf r) }
    pure false

def head : Tokens Char := return (← get).cursor.head

def push (t : Token) : Tokens Unit := modify (·.push t)

def allowKey (allowed : Bool) : Tokens Unit := modify fun s => { s with keyAllowed := allowed }

def isOpen (k : KeyStart) : Tokens Bool := do
  if !k.possible then pure false
  else if (← get).isStale k then
    if k.required then refuse .noColon k.mark
    pure false
  else pure true

def dropKey : Tokens Unit := do
  let k := (← get).keyStart
  if k.possible then
    if k.required then refuse .noColon k.mark
    modify fun s => { s with keyStart := { k with possible := false } }.unlist k.number

def saveKey : Tokens Unit := do
  let s ← get
  if s.keyAllowed then
    let required := !s.inFlow && s.indent == s.mark.column
    dropKey
    modify fun s' =>
      { s'.unlist s.nextNumber with
        keyStart := ⟨true, required, s.nextNumber, s.mark⟩
        waiting := (s.nextNumber, s.level) :: (s'.unlist s.nextNumber).waiting }

def maxDepth : Nat := 10000

def rollIndent (column : Nat) (number : Option Nat) (kind : TokenKind) (mark : Mark) :
    Tokens Unit := do
  let s ← get
  if !s.inFlow && s.indent < column then
    set { s with indents := s.indent :: s.indents, indent := column }
    if maxDepth ≤ s.indents.length then refuse .tooDeep s.keyStart.mark
    let t : Token := ⟨kind, mark, mark⟩
    modify fun s =>
      match number with
      | some n => s.insertBefore n t
      | none => s.push t

end Tokens

end WordLayout.Yaml
