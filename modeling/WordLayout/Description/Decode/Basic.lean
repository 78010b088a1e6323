import WordLayout.Description.Error
import WordLayout.Text.Base64
import WordLayout.Yaml.Node

namespace WordLayout.Decode

open Yaml

inductive Mismatch
  | wrongType (line : Nat) (tag value wanted : String)
  | repeatedKey (line : Nat) (key : String) (first : Nat)
  | repeatedField (line : Nat) (name type : String)
  deriving DecidableEq, Inhabited

def shownValue (tag value : String) : String :=
  if tag = Tag.seq ∨ tag = Tag.map then value
  else if 10 < value.utf8ByteSize then " \x60" ++ Text.takeBytes 7 value ++ "...\x60"
  else " \x60" ++ value ++ "\x60"

def Mismatch.text : Mismatch → String
  | .wrongType line tag value wanted =>
    "line " ++ toString line ++ ": cannot unmarshal " ++ tag ++ shownValue tag value ++ " into " ++
      wanted
  | .repeatedKey line key first =>
    "line " ++ toString line ++ ": mapping key " ++ Text.quoted key ++
      " already defined at line " ++ toString first
  | .repeatedField line name type =>
    "line " ++ toString line ++ ": field " ++ name ++ " already set in type " ++ type

inductive Refusal
  | located (fault : Located)
  | undecodable (tag value wanted : String)
  | invalidBinary
  | tooManyAliases
  | selfContained (anchor : String)
  | wrongMerge
  | wrongKey (shown : String)
  | collectionKey
  deriving DecidableEq, Inhabited

structure Progress where
  mismatches : List Mismatch := []
  visited : Nat := 0
  aliased : Nat := 0
  following : List Place := []
  merged : Option (List String) := none
  deriving DecidableEq, Inhabited

abbrev Decoder := StateT Progress (Except Refusal)

def mismatch (m : Mismatch) : Decoder Unit :=
  modify fun s => { s with mismatches := m :: s.mismatches }

def wrongType (n : Node) (wanted : String) : Decoder Unit :=
  mismatch (.wrongType n.place.line n.tag n.text wanted)

def positionOf (n : Node) : Position := ⟨n.place.line, n.place.column⟩

def refuse {α : Type} (n : Node) (fault : LoadFault) : Decoder α :=
  throw (.located ⟨fault, positionOf n⟩)

def anew {α : Type} (x : Decoder α) : Decoder α := do
  let s ← get
  set { mismatches := s.mismatches : Progress }
  let a ← x
  modify fun t => { s with mismatches := t.mismatches }
  pure a

def isExcessive (visited aliased : Nat) : Bool :=
  let low := 400000
  let range := 3600000
  100 < aliased && 1000 < visited &&
    (99 * range - 89 * min (visited - low) range) * visited < 100 * range * aliased

def visit : Decoder Unit := do
  modify fun s =>
    { s with
      visited := s.visited + 1
      aliased := if s.following.isEmpty then s.aliased else s.aliased + 1 }
  let s ← get
  if isExcessive s.visited s.aliased then throw .tooManyAliases

def enter {α : Type} (d : Document) (n : Node) (read : Node → Decoder α) : Decoder α := do
  visit
  match n with
  | .alias place name _ =>
    let s ← get
    if s.following.contains place then throw (.selfContained name)
    set { s with following := place :: s.following }
    visit
    let a ← read (d.follow n)
    modify fun t => { t with following := s.following }
    pure a
  | n => read n

def repeatedKeys : List Node → List Mismatch
  | [] => []
  | k :: ks =>
    (ks.filter k.sameKey).map (fun k' => .repeatedKey k'.place.line k'.text k.place.line) ++
      repeatedKeys ks

def haveUniqueKeys (entries : List (Node × Node)) : Decoder Bool := do
  let ms := repeatedKeys (entries.map (·.1))
  ms.forM mismatch
  pure ms.isEmpty

def scalarValue (tag text : String) : Decoder Scalar := do
  match Scalar.resolve tag text with
  | .error found => throw (.undecodable found text tag)
  | .ok (tag, v) =>
    if tag = Tag.binary then
      match Text.decodeBase64? text with
      | some bytes => pure (.text (Text.ofBytes bytes))
      | none => throw .invalidBinary
    else pure v

def fit {α : Type} (wanted : String) (read : String → Scalar → Option α) (n : Node) :
    Decoder (Option α) := do
  match n with
  | .scalar _ tag text =>
    match ← scalarValue tag text with
    | .null => pure none
    | v =>
      match read text v with
      | some a => pure (some a)
      | none =>
        wrongType n wanted
        pure none
  | .mapping _ _ entries =>
    if ← haveUniqueKeys entries then wrongType n wanted
    pure none
  | .sequence .. | .alias .. =>
    wrongType n wanted
    pure none

def string (d : Document) (n : Node) : Decoder (Option String) :=
  enter d n (fit "string" fun text v =>
    match v with
    | .text s => some s
    | _ => some text)

def uint32 (d : Document) (n : Node) : Decoder (Option UInt32) :=
  enter d n fun n =>
    fit (if n.tag = Tag.null then "*uint32" else "uint32") (fun _ v =>
      match v with
      | .int i => if 0 ≤ i ∧ i < 0x100000000 then some (UInt32.ofNat i.toNat) else none
      | .float (.finite negative whole) =>
        if (negative ∧ whole ≠ 0) ∨ 0x100000000 ≤ whole then none else some (UInt32.ofNat whole)
      | _ => none) n

def trueWords : List String := ["y", "Y", "yes", "Yes", "YES", "on", "On", "ON"]

def falseWords : List String := ["n", "N", "no", "No", "NO", "off", "Off", "OFF"]

def boolean (d : Document) (n : Node) : Decoder (Option Bool) :=
  enter d n (fit "bool" fun _ v =>
    match v with
    | .bool b => some b
    | .text s =>
      if trueWords.contains s then some true
      else if falseWords.contains s then some false
      else none
    | _ => none)

def list {α : Type} (wanted : String) (item : Node → Decoder (Option α)) (d : Document)
    (n : Node) : Decoder (List α) :=
  enter d n fun n => do
    match n with
    | .sequence _ _ items => pure ((← items.mapM item).filterMap id)
    | n => do
      let _ ← fit wanted (fun _ _ => (none : Option Unit)) n
      pure []

end WordLayout.Decode
