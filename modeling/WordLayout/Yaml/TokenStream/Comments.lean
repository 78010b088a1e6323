import WordLayout.Yaml.TokenStream.Basic

namespace WordLayout.Yaml

def commentReach : Nat := 512

namespace Cursor

/-- The character that starts `k` bytes ahead. Inside of a longer character stands one that is
neither white space nor an indicator. -/
def unitFrom : List Char → Nat → Char
  | [], _ => nul
  | c :: _, 0 => c
  | c :: cs, k + 1 => if k + 1 < c.utf8Size then '\x80' else unitFrom cs (k + 1 - c.utf8Size)

def unit (c : Cursor) (k : Nat) : Char := unitFrom c.rest k

end Cursor

structure CommentRun where
  token : Mark
  scan : Mark
  text : List Char := []
  start : Mark := {}
  noEmpty : Bool
  empty : Bool := false
  line : Nat
  column : Nat
  deriving Inhabited

namespace CommentRun

def place (r : CommentRun) (index ahead : Nat) : Mark := ⟨index + ahead, r.line, r.column⟩

def foot (r : CommentRun) (token stop : Mark) : Comment :=
  { kind := .foot, text := r.text.reverse, token, start := r.start, stop, scan := r.scan }

def headComment (r : CommentRun) (stop : Mark) : Comment :=
  { kind := .head, text := r.text.reverse, token := r.start, start := r.start, stop
    scan := r.scan }

end CommentRun

namespace Tokens

def addComment (c : Comment) : Tokens Unit :=
  modify fun s => { s with comments := s.comments ++ [c] }

def readComment (index : Nat) : Nat → List Char → Tokens (List Char)
  | 0, text => pure text
  | fuel + 1, text => do
    scan (.demand 1)
    let c := (← get).cursor
    if index ≤ c.mark.index then
      if isLineEnd c.head then pure text
      else
        scan .skip
        readComment index fuel (c.head :: text)
    else
      scan (if isLineEnd c.head then .skipBreak else .skip)
      readComment index fuel text

def lineCommentFrom (token : Mark) : Nat → Nat → Tokens Unit
  | 0, _ => pure ()
  | fuel + 1, ahead => do
    if ← tryDemand (ahead + 1) then
      let c := (← get).cursor
      if isGap (c.unit ahead) then lineCommentFrom token fuel (ahead + 1)
      else if c.unit ahead == '#' then
        let m := c.mark
        let text ← readComment (m.index + ahead) (c.size + 1) []
        addComment
          { kind := .line, text := text.reverse, token
            start := { m with index := m.index + ahead, column := m.column + ahead } }

def lineComment (token : Mark) : Tokens Unit := do
  if (← get).cursor.newLines = 0 then lineCommentFrom token commentReach 0

def tokenBefore (queue : List Token) : Token :=
  match queue.reverse with
  | ⟨.flowEntry, _, _⟩ :: t :: _ => t
  | t :: _ => t
  | [] => default

def footLine (c : Cursor) (scan : Mark) : Option Nat :=
  if scan.column = 0 then none
  else
    some (c.mark.line - c.newLines + 1 + (if c.newLines = 0 ∧ 1 < c.mark.column then 1 else 0))

def splitFoot (r : CommentRun) (token stop : Mark) : Tokens CommentRun := do
  addComment (r.foot token stop)
  pure { r with text := [], scan := stop, token := stop }

/-- The run at the end of a line: at the first empty line, or at the bracket that closes a flow
collection, a comment may turn out to be a foot comment. -/
def endCommentLine (r : CommentRun) (before : Token) (foot : Option Nat) (close : Bool) (x : Char)
    (stop : Mark) : Tokens CommentRun := do
  let outdented : Bool := (r.start.column : Int) - 1 < max (← get).indent 0
  if r.text.isEmpty || (r.empty && !close) then pure r
  else if close ||
      (r.noEmpty && ((some r.start.line == foot && before.kind != .value) || outdented)) then
    splitFoot r (if outdented then r.start else r.token) stop
  else pure (if x == nul then r else { r with text := '\n' :: r.text })

def commentsFrom (before : Token) (foot : Option Nat) :
    Nat → CommentRun → Nat → Tokens (CommentRun × Nat)
  | 0, r, ahead => pure (r, ahead)
  | fuel + 1, r, ahead => do
    if commentReach ≤ ahead then pure (r, ahead)
    else if !(← tryDemand (ahead + 1)) then pure (r, ahead)
    else
      let s ← get
      let r := { r with column := r.column + 1 }
      let x := s.cursor.unit ahead
      let stop := r.place s.mark.index ahead
      let close := s.inFlow && (x == ']' || x == '\x7d')
      if isGap x then commentsFrom before foot fuel r (ahead + 1)
      else if close || isLineEnd x then
        let r ← endCommentLine r before foot close x stop
        if isBreak x then
          commentsFrom before foot fuel
            { r with noEmpty := false, empty := true, column := 0, line := r.line + 1 } (ahead + 1)
        else pure (r, ahead)
      else
        let outdented : Bool := (r.column : Int) - 1 < max s.indent 0
        let r ←
          if !r.text.isEmpty && outdented && r.column != r.start.column then
            splitFoot r r.token stop
          else pure r
        if x != '#' then pure (r, ahead)
        else
          let r :=
            if r.text.isEmpty then { r with start := stop } else { r with text := '\n' :: r.text }
          let text ← readComment (s.mark.index + ahead) (s.cursor.size + 1) r.text
          commentsFrom before foot fuel
            { r with text, empty := false, column := 0, line := (← get).mark.line } 1

def comments (start : Mark) : Tokens Unit := do
  let s ← get
  let before := tokenBefore s.queue
  let r : CommentRun :=
    { token := before.start, scan := start, noEmpty := s.cursor.newLines ≤ 1, line := s.mark.line
      column := s.mark.column }
  let (r, ahead) ←
    commentsFrom before (footLine s.cursor start) (commentReach * (s.cursor.size + 2)) r 0
  if !r.text.isEmpty then
    addComment (r.headComment (r.place ((← get).mark.index - 1) ahead))

def promoteComment (s : TokenStream) : TokenStream :=
  match s.queue.reverse, s.comments.reverse with
  | ⟨.blockEntry, _, _⟩ :: ⟨.blockSequenceStart, _, _⟩ :: _, c :: earlier =>
    if c.kind == .line && !isBreak s.cursor.head then
      let token := if c.start.line + 1 = s.mark.line then s.mark else c.token
      { s with comments := (({ c with kind := .head, token } : Comment) :: earlier).reverse }
    else s
  | _, _ => s

def skipToToken (start : Mark) : Nat → Tokens Unit
  | 0 => pure ()
  | fuel + 1 => do
    scan (.demand 1)
    let c := (← get).cursor
    if c.mark.column = 0 ∧ c.marked then scan .skip
    scan (.demand 1)
    let s ← get
    scan (.skipWhile fun x => x == ' ' || (x == '\t' && (s.inFlow || !s.keyAllowed)))
    modify promoteComment
    if (← head) == '#' then comments start
    if isBreak (← head) then
      scan .skipBreak
      if !s.inFlow then allowKey true
      skipToToken start fuel

end Tokens

end WordLayout.Yaml
