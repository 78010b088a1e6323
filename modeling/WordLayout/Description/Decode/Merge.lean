import WordLayout.Description.Decode.Basic

namespace WordLayout.Decode

open Yaml

inductive Value
  | null
  | bool (b : Bool)
  | plain (s : String)
  | text (s : String)
  | list (items : List Value)
  | map (strings : Bool) (entries : List (Value × Value))
  deriving Inhabited

namespace Value

def ofScalar (text : String) : Scalar → Value
  | .null => .null
  | .bool b => .bool b
  | .int n => .plain (toString n)
  | .float _ | .timestamp => .plain text
  | .text s => .text s

def isCollection : Value → Bool
  | .list _ | .map .. => true
  | _ => false

mutual

def shown : Value → String
  | .null => "interface \x7b\x7d(nil)"
  | .bool b => toString b
  | .plain s => s
  | .text s => Text.quoted s
  | .list items => "[]interface \x7b\x7d\x7b" ++ ", ".intercalate (shownItems items) ++ "\x7d"
  | .map strings entries =>
    "map[" ++ (if strings then "string" else "interface \x7b\x7d") ++ "]interface \x7b\x7d\x7b" ++
      ", ".intercalate (shownEntries entries) ++ "\x7d"

def shownItems : List Value → List String
  | [] => []
  | v :: vs => shown v :: shownItems vs

def shownEntries : List (Value × Value) → List String
  | [] => []
  | (k, v) :: es => (shown k ++ ":" ++ shown v) :: shownEntries es

end

end Value

def isMergeKey : Node → Bool
  | .scalar _ tag text => text == "<<" && (tag == "" || tag == "!" || tag == Tag.merge)
  | _ => false

def mergeOf? (entries : List (Node × Node)) : Option Node :=
  (entries.reverse.find? (isMergeKey ·.1)).map (·.2)

def noteKey (merged : Option (List String)) (key : Value) :
    Decoder (Bool × Option (List String)) := do
  match merged with
  | none => pure (false, none)
  | some keys =>
    if key.isCollection then throw .collectionKey
    match key with
    | .text s => pure (keys.contains s, some (if keys.contains s then keys else s :: keys))
    | _ => pure (false, some keys)

def noteKeys (value : Node → Decoder (Option Value)) : List Node → Decoder Unit
  | [] => pure ()
  | k :: ks => do
    match ← value k with
    | none => pure ()
    | some v =>
      let (_, merged) ← noteKey (← get).merged v
      modify fun s => { s with merged }
    noteKeys value ks

def merge {α : Type} (d : Document) (value : Node → Decoder (Option Value))
    (read : α → Node → Decoder α) (keys : List Node) (merged : Node) (a : α) : Decoder α := do
  let outer := (← get).merged
  if outer.isNone then
    modify fun s => { s with merged := some [] }
    noteKeys value keys
  let one (a : α) (n : Node) : Decoder α :=
    match d.follow n with
    | .mapping .. => read a n
    | _ => throw .wrongMerge
  let a ←
    match merged with
    | .sequence _ _ items => items.foldlM one a
    | n => one a n
  modify fun s => { s with merged := outer }
  pure a

def haveTextKeys (d : Document) (entries : List (Node × Node)) : Bool :=
  entries.all fun (k, _) => [Tag.str, Tag.merge].contains (d.follow k).tag

def valuesFrom (d : Document) (value : Node → Decoder (Option Value)) (strings : Bool) :
    Option (List String) → List (Value × Value) → List (Node × Node) →
      Decoder (List (Value × Value) × Option (List String))
  | merged, read, [] => pure (read, merged)
  | merged, read, (k, v) :: rest => do
    if isMergeKey k then valuesFrom d value strings merged read rest
    else
      match ← if strings then (Option.map Value.text) <$> string d k else value k with
      | none => valuesFrom d value strings merged read rest
      | some key =>
        let (known, merged) ← noteKey merged key
        if known then valuesFrom d value strings merged read rest
        else
          if key.isCollection then throw (.wrongKey key.shown)
          match ← value v with
          | none => valuesFrom d value strings merged read rest
          | some e => valuesFrom d value strings merged (read ++ [(key, e)]) rest

def valuesInto (d : Document) (value : Node → Decoder (Option Value)) (strings : Bool) :
    Nat → List (Value × Value) → List (Node × Node) → Decoder (List (Value × Value))
  | 0, read, _ => pure read
  | fuel + 1, read, entries => do
    let outer := (← get).merged
    modify fun s => { s with merged := none }
    let (read, merged) ← valuesFrom d value strings outer read entries
    modify fun s => { s with merged }
    match mergeOf? entries with
    | none => pure read
    | some m =>
      merge d value (fun read n =>
        enter d n fun n => do
          match n with
          | .mapping _ _ entries =>
            if ← haveUniqueKeys entries then valuesInto d value strings fuel read entries
            else pure read
          | _ => pure read) (entries.map (·.1)) m read

def value (d : Document) : Nat → Node → Decoder (Option Value)
  | 0, _ => pure none
  | fuel + 1, n =>
    enter d n fun n => do
      match n with
      | .scalar _ tag text => pure (some (.ofScalar text (← scalarValue tag text)))
      | .sequence _ _ items => pure (some (.list ((← items.mapM (value d fuel)).filterMap id)))
      | .mapping _ _ entries =>
        if ← haveUniqueKeys entries then
          let strings := haveTextKeys d entries
          pure (some (.map strings (← valuesInto d (value d fuel) strings fuel [] entries)))
        else pure none
      | .alias .. => pure none

end WordLayout.Decode
