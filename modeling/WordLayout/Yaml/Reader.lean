import WordLayout.Yaml.Node
import WordLayout.Yaml.TokenStream

/-!
Reading the first document of a text into a tree. Tokens are asked for one by one, so that what
follows the document is looked at only as far as its end requires.
-/

namespace WordLayout.Yaml

structure ReaderState where
  tokens : TokenStream
  handles : List (String × String) := []
  anchors : List (String × Nat) := []
  parts : List (Nat × Node) := []
  partCount : Nat := 0
  deriving Inhabited

abbrev Reader := EStateM Error ReaderState

namespace Reader

def peek : Reader Token := do
  let s ← get
  match Tokens.peek.run s.tokens with
  | .ok t tokens =>
    set { s with tokens }
    pure t
  | .error trouble tokens =>
    set { s with tokens }
    throw trouble.error

def skip : Reader Unit := modify fun s => { s with tokens := s.tokens.skip }

def advance : Reader Token := do
  skip
  peek

def complete : Reader Unit := do
  match (← get).tokens.trouble with
  | some trouble => throw trouble.error
  | none => pure ()

def completeCommented : Reader Unit := do
  modify fun s => { s with tokens := { s.tokens with head := [] } }
  complete

def fail {α : Type} (problem : Problem) (context : Option Mark) (mark : Mark) : Reader α := do
  throw (Trouble.ofOrder (← get).tokens.trouble problem context mark).error

/-- Skips the indicator of an entry and looks at the token behind it. Where a comment precedes the
indicator and a block follows it, the comment goes with the whole block. To find that out the
reader looks ahead twice, and the first look does not fail. -/
def enterEntry : Reader Token := do
  let comment := (← get).tokens.head
  skip
  if !comment.isEmpty then
    let s ← get
    match Tokens.peek.run s.tokens with
    | .error _ tokens => set { s with tokens }
    | .ok t tokens =>
      let block := t.kind == .blockSequenceStart || t.kind == .blockMappingStart
      let head := if block then tokens.head.drop (comment.length + 1) else tokens.head
      set { s with tokens := { tokens with head } }
  peek

def placeOf (m : Mark) : Place := ⟨m.line + 1, m.column + 1⟩

def emptyNode (m : Mark) : Reader Node := do
  complete
  pure (.scalar (placeOf m) Tag.null "")

def openPart (name : Option String) : Reader (Option Nat) := do
  match name with
  | none => pure none
  | some name =>
    let s ← get
    set { s with anchors := (name, s.partCount) :: s.anchors, partCount := s.partCount + 1 }
    pure (some s.partCount)

def closePart (part : Option Nat) (n : Node) : Reader Node := do
  match part with
  | none => pure n
  | some i =>
    modify fun s => { s with parts := (i, n) :: s.parts }
    pure n

def resolveTag (context mark : Mark) (handle suffix : String) : Reader String := do
  if handle = "" then pure suffix
  else
    let tag := (((← get).handles.lookup handle).map (· ++ suffix)).getD ""
    if tag = "" then fail .unknownTagHandle (some context) mark else pure tag

structure Properties where
  start : Mark
  anchor : Option String := none
  tag : String := ""
  deriving Inhabited

def readAnchor (t : Token) : Reader (Option String × Token) := do
  match t.kind with
  | .anchor name => pure (some name, ← advance)
  | _ => pure (none, t)

def readTag (t : Token) : Reader (Option (String × String × Mark) × Token) := do
  match t.kind with
  | .tag handle suffix => pure (some (handle, suffix, t.start), ← advance)
  | _ => pure (none, t)

def readProperties (t : Token) : Reader (Properties × Token) := do
  let start := t.start
  let (before, t) ← readAnchor t
  let (tag, t) ← readTag t
  let (after, t) ← if before.isNone && tag.isSome then readAnchor t else pure (none, t)
  let tag ←
    match tag with
    | some (handle, suffix, mark) => resolveTag start mark handle suffix
    | none => pure ""
  pure ({ start, anchor := before.or after, tag }, t)

def chooseTag (given default : String) : String :=
  if given = "" ∨ given = "!" then default else Tag.short given

def isOneOf (t : Token) (stops : List TokenKind) : Bool := stops.contains t.kind

mutual

/-- Reads a node. `block` allows block collections; `indentless` also allows a sequence whose
entries are not indented. -/
def node : Nat → Bool → Bool → Reader Node
  | 0, _, _ => throw { problem := .noContent }
  | fuel + 1, block, indentless => do
    let t ← peek
    match t.kind with
    | .alias name =>
      skip
      completeCommented
      match (← get).anchors.lookup name with
      | some part => pure (.alias (placeOf t.start) name part)
      | none => throw { problem := .unknownAnchor name }
    | _ =>
      let (p, t) ← readProperties t
      let place := placeOf p.start
      match t.kind with
      | .scalar text plain =>
        skip
        completeCommented
        let tag := chooseTag p.tag (if plain then Scalar.plainTag text else Tag.str)
        closePart (← openPart p.anchor) (.scalar place tag text)
      | .flowSequenceStart =>
        completeCommented
        let part ← openPart p.anchor
        skip
        let items ← flowItems fuel t.start true
        closePart part (.sequence place (chooseTag p.tag Tag.seq) items)
      | .flowMappingStart =>
        completeCommented
        let part ← openPart p.anchor
        skip
        let entries ← flowEntries fuel t.start true
        closePart part (.mapping place (chooseTag p.tag Tag.map) entries)
      | kind =>
        if indentless && kind == .blockEntry then
          complete
          let part ← openPart p.anchor
          let items ← plainItems fuel
          closePart part (.sequence place (chooseTag p.tag Tag.seq) items)
        else if block && kind == .blockSequenceStart then
          complete
          let part ← openPart p.anchor
          skip
          let items ← blockItems fuel t.start
          closePart part (.sequence place (chooseTag p.tag Tag.seq) items)
        else if block && kind == .blockMappingStart then
          complete
          let part ← openPart p.anchor
          skip
          let entries ← blockEntries fuel t.start
          closePart part (.mapping place (chooseTag p.tag Tag.map) entries)
        else if p.anchor.isSome || p.tag ≠ "" then
          complete
          closePart (← openPart p.anchor) (.scalar place (chooseTag p.tag Tag.null) "")
        else fail .noContent (some p.start) t.start

def blockItems : Nat → Mark → Reader (List Node)
  | 0, _ => pure []
  | fuel + 1, context => do
    let t ← peek
    match t.kind with
    | .blockEntry =>
      let next ← enterEntry
      let item ←
        if isOneOf next [.blockEntry, .blockEnd] then emptyNode t.stop
        else node fuel true false
      let rest ← blockItems fuel context
      pure (item :: rest)
    | .blockEnd =>
      skip
      complete
      pure []
    | _ => fail .noEntry (some context) t.start

def plainItems : Nat → Reader (List Node)
  | 0 => pure []
  | fuel + 1 => do
    let t ← peek
    match t.kind with
    | .blockEntry =>
      let next ← enterEntry
      let item ←
        if isOneOf next [.blockEntry, .key, .value, .blockEnd] then emptyNode t.stop
        else node fuel true false
      let rest ← plainItems fuel
      pure (item :: rest)
    | _ =>
      complete
      pure []

def blockEntries : Nat → Mark → Reader (List (Node × Node))
  | 0, _ => pure []
  | fuel + 1, context => do
    let t ← peek
    match t.kind with
    | .key =>
      let stops := [.key, .value, .blockEnd]
      let next ← advance
      let key ← if isOneOf next stops then emptyNode t.stop else node fuel true true
      let t ← peek
      let value ←
        if t.kind == .value then do
          let next ← advance
          if isOneOf next stops then emptyNode t.stop else node fuel true true
        else emptyNode t.start
      let rest ← blockEntries fuel context
      pure ((key, value) :: rest)
    | .blockEnd =>
      skip
      completeCommented
      pure []
    | _ => fail .noKey (some context) t.start

def flowItems : Nat → Mark → Bool → Reader (List Node)
  | 0, _, _ => pure []
  | fuel + 1, context, first => do
    let t ← peek
    if t.kind == .flowSequenceEnd then
      skip
      completeCommented
      pure []
    else
      let t ←
        if first then pure t
        else if t.kind == .flowEntry then advance
        else fail .noFlowSequenceEnd (some context) t.start
      match t.kind with
      | .flowSequenceEnd =>
        skip
        completeCommented
        pure []
      | .key =>
        skip
        complete
        let entry ← flowPair fuel
        let item : Node := .mapping (placeOf t.start) Tag.map [entry]
        let rest ← flowItems fuel context false
        pure (item :: rest)
      | _ =>
        let item ← node fuel false false
        let rest ← flowItems fuel context false
        pure (item :: rest)

def flowPair : Nat → Reader (Node × Node)
  | 0 => pure default
  | fuel + 1 => do
    let t ← peek
    let key ←
      if isOneOf t [.value, .flowEntry, .flowSequenceEnd] then
        skip
        emptyNode t.stop
      else node fuel false false
    let t ← peek
    let value ←
      if t.kind == .value then do
        let next ← advance
        if isOneOf next [.flowEntry, .flowSequenceEnd] then emptyNode next.start
        else node fuel false false
      else emptyNode t.start
    let _ ← peek
    complete
    pure (key, value)

def flowEntries : Nat → Mark → Bool → Reader (List (Node × Node))
  | 0, _, _ => pure []
  | fuel + 1, context, first => do
    let t ← peek
    if t.kind == .flowMappingEnd then
      skip
      completeCommented
      pure []
    else
      let t ←
        if first then pure t
        else if t.kind == .flowEntry then advance
        else fail .noFlowMappingEnd (some context) t.start
      let stops := [.flowEntry, .flowMappingEnd]
      match t.kind with
      | .flowMappingEnd =>
        skip
        completeCommented
        pure []
      | .key =>
        let next ← advance
        let key ←
          if isOneOf next (.value :: stops) then emptyNode next.start
          else node fuel false false
        let t ← peek
        let value ←
          if t.kind == .value then do
            let next ← advance
            if isOneOf next stops then emptyNode next.start else node fuel false false
          else emptyNode t.start
        let rest ← flowEntries fuel context false
        pure ((key, value) :: rest)
      | _ =>
        let key ← node fuel false false
        let t ← peek
        let value ← emptyNode t.start
        let rest ← flowEntries fuel context false
        pure ((key, value) :: rest)

end

def defaultHandles : List (String × String) := [("!", "!"), ("!!", Tag.longStart)]

def directives : Nat → Bool → Reader Unit
  | 0, _ => pure ()
  | fuel + 1, versioned => do
    let t ← peek
    match t.kind with
    | .version major minor =>
      if versioned then fail .repeatedVersion none t.start
      if major ≠ 1 ∨ minor ≠ 1 then fail .otherVersion none t.start
      skip
      directives fuel true
    | .tagDirective handle start =>
      if ((← get).handles.lookup handle).isSome then fail .repeatedTagDirective none t.start
      modify fun s => { s with handles := (handle, start) :: s.handles }
      skip
      directives fuel versioned
    | _ => modify fun s => { s with handles := s.handles ++ defaultHandles }

def markedContent (fuel : Nat) : Reader Node := do
  let t ← peek
  match t.kind with
  | .version .. | .tagDirective .. | .documentStart | .documentEnd | .streamEnd => emptyNode t.start
  | _ => node fuel true false

def documentFrom (fuel : Nat) (t : Token) : Reader Node := do
  match t.kind with
  | .version .. | .tagDirective .. | .documentStart =>
    directives fuel false
    let t ← peek
    if t.kind != .documentStart then fail .noDocumentStart none t.start
    skip
    complete
    markedContent fuel
  | _ =>
    modify fun s =>
      { s with
        handles := defaultHandles
        tokens := { s.tokens with head := Comment.contentHead s.tokens.head } }
    complete
    node fuel true false

def document (fuel : Nat) : Reader (Option Node) := do
  let _ ← peek
  skip
  complete
  let t ← peek
  match t.kind with
  | .streamEnd =>
    complete
    pure none
  | _ =>
    let root ← documentFrom fuel t
    let _ ← peek
    complete
    pure (some root)

end Reader

def Document.read (bs : List UInt8) : Except Error (Option Document) :=
  let input := Input.ofBytes bs
  match (Reader.document (4 * input.chars.length + 16)).run { tokens := .ofInput input } with
  | .ok root s => .ok (root.map fun root => { root, parts := s.parts, size := input.chars.length })
  | .error e _ => .error e

end WordLayout.Yaml
