import WordLayout.Yaml.Lexeme.Block
import WordLayout.Yaml.Lexeme.Directive
import WordLayout.Yaml.Lexeme.Plain
import WordLayout.Yaml.Lexeme.Quoted
import WordLayout.Yaml.TokenStream.Comments

namespace WordLayout.Yaml.Tokens

def takeIndicator (kind : TokenKind) (n : Nat) : Tokens Unit := do
  let start := (← get).mark
  scan (Lexeme.skipMany n)
  push ⟨kind, start, (← get).mark⟩

def resetBlocks : Tokens Unit := do
  modify fun s => s.unroll (-1) s.mark
  dropKey
  allowKey false

def fetchStreamEnd : Tokens Unit := do
  let m := (← get).mark
  let m := if m.column = 0 then m else { m with line := m.line + 1, column := 0 }
  modify fun s => { s with cursor := { s.cursor with mark := m } }
  resetBlocks
  push ⟨.streamEnd, m, m⟩

def fetchDirective : Tokens Unit := do
  resetBlocks
  let start := (← get).mark
  let (kind, stop) ← scan Lexeme.directive
  push ⟨kind, start, stop⟩

def fetchDocumentMark (kind : TokenKind) : Tokens Unit := do
  resetBlocks
  takeIndicator kind 3

def fetchFlowStart (kind : TokenKind) : Tokens Unit := do
  saveKey
  let s ← get
  set { s with
    outerKeys := s.keyStart :: s.outerKeys
    keyStart := { number := s.nextNumber, mark := s.mark }
    level := s.level + 1 }
  if maxDepth ≤ s.level then refuse .tooDeep s.mark
  allowKey true
  takeIndicator kind 1

def leaveFlow (s : TokenStream) : TokenStream :=
  match s.outerKeys with
  | [] => s
  | outer :: rest =>
    { s.unlist s.keyStart.number with keyStart := outer, outerKeys := rest, level := s.level - 1 }

def fetchFlowEnd (kind : TokenKind) : Tokens Unit := do
  dropKey
  modify leaveFlow
  allowKey false
  takeIndicator kind 1

def fetchFlowEntry : Tokens Unit := do
  dropKey
  allowKey true
  takeIndicator .flowEntry 1

def openBlock (kind : TokenKind) (problem : Problem) : Tokens Unit := do
  let s ← get
  if !s.inFlow then
    if !s.keyAllowed then refuse problem s.mark
    rollIndent s.mark.column none kind s.mark

def fetchBlockEntry : Tokens Unit := do
  openBlock .blockSequenceStart .noEntryHere
  dropKey
  allowKey true
  takeIndicator .blockEntry 1

def fetchKey : Tokens Unit := do
  openBlock .blockMappingStart .noKeyHere
  dropKey
  allowKey (!(← get).inFlow)
  takeIndicator .key 1

def fetchValue : Tokens Unit := do
  let k := (← get).keyStart
  if ← isOpen k then
    modify (·.insertBefore k.number ⟨.key, k.mark, k.mark⟩)
    rollIndent k.mark.column (some k.number) .blockMappingStart k.mark
    modify fun s => { s.unlist k.number with keyStart := { k with possible := false } }
    allowKey false
  else
    modify fun s => { s with keyStart := { k with possible := false } }
    openBlock .blockMappingStart .noValueHere
    allowKey (!(← get).inFlow)
  takeIndicator .value 1

def fetchKeyStart (read : Scan TokenKind) : Tokens Unit := do
  saveKey
  allowKey false
  let start := (← get).mark
  let kind ← scan read
  push ⟨kind, start, (← get).mark⟩

def fetchPlain : Tokens Unit := do
  saveKey
  allowKey false
  let s ← get
  let plain ← scan (Lexeme.plain s.inFlow (s.indent + 1).toNat)
  if plain.gap.broken then allowKey true
  push ⟨.scalar plain.text true, s.mark, plain.stop⟩

def fetchBlockScalar (literal : Bool) : Tokens Unit := do
  dropKey
  allowKey true
  let s ← get
  let text ← scan (Lexeme.block literal s.indent)
  push ⟨.scalar text false, s.mark, (← get).mark⟩

def startsPlain (s : TokenStream) : Bool :=
  let x := s.cursor.head
  let next := s.cursor.peek 1
  !(isGapOrEnd x || isIndicator x) || (x == '-' && !isGap next) ||
    (!s.inFlow && (x == '?' || x == ':') && !isGapOrEnd next)

def fetchContent : Tokens Unit := do
  let s ← get
  let next := s.cursor.peek 1
  match s.cursor.head with
  | '[' => fetchFlowStart .flowSequenceStart
  | '\x7b' => fetchFlowStart .flowMappingStart
  | ']' => fetchFlowEnd .flowSequenceEnd
  | '\x7d' => fetchFlowEnd .flowMappingEnd
  | ',' => fetchFlowEntry
  | '*' => fetchKeyStart (.alias <$> Lexeme.anchorName)
  | '&' => fetchKeyStart (.anchor <$> Lexeme.anchorName)
  | '!' => fetchKeyStart ((fun (handle, suffix) => .tag handle suffix) <$> Lexeme.tag)
  | '\x27' | '\x22' => fetchKeyStart ((.scalar · false) <$> Lexeme.quoted)
  | x =>
    if x == '-' && isGapOrEnd next then fetchBlockEntry
    else if x == '?' && (s.inFlow || isGapOrEnd next) then fetchKey
    else if x == ':' && (s.inFlow || isGapOrEnd next) then fetchValue
    else if x == '|' && !s.inFlow then fetchBlockScalar true
    else if x == '>' && !s.inFlow then fetchBlockScalar false
    else if startsPlain s then fetchPlain
    else refuse .noToken s.mark

/-- Where the comment behind the token at the cursor belongs: to the token itself, or to the one
before it if the token is the colon or the comma behind that. -/
def commentPlace (s : TokenStream) : Mark :=
  if s.cursor.head == (if s.inFlow then ',' else ':') then
    (s.queue.getLast?.map (·.start)).getD s.mark
  else s.mark

def fetchCommented : Tokens Unit := do
  let place := commentPlace (← get)
  fetchContent
  match (← get).queue.getLast? with
  | some ⟨.blockEntry, _, _⟩ => pure ()
  | _ => lineComment place

def fetch : Tokens Unit := do
  scan (.demand 1)
  let s ← get
  if !s.started then
    set { s with started := true }
    push ⟨.streamStart, s.mark, s.mark⟩
  else
    skipToToken s.mark (s.cursor.size + 1)
    modify fun s' => s'.unroll s'.mark.column s.mark
    scan (.demand 4)
    let s ← get
    if s.cursor.atEnd then fetchStreamEnd
    else if s.mark.column = 0 ∧ s.cursor.head = '%' then fetchDirective
    else if s.cursor.atDocumentMark '-' then fetchDocumentMark .documentStart
    else if s.cursor.atDocumentMark '.' then fetchDocumentMark .documentEnd
    else fetchCommented

end WordLayout.Yaml.Tokens
