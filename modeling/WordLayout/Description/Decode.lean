import WordLayout.Description.Decode.Merge

/-!
Descriptions from trees. Wrong keys and wrong shapes of declarations end the reading at once;
values of the wrong type are collected, and reading goes on behind them. A value that is left
empty counts as left out, and an empty item is dropped.
-/

namespace WordLayout.Decode

open Yaml

structure Shape (α : Type) where
  name : String
  keys : List String
  place : α → Position → α
  set : α → String → Node → Decoder α

def contentName : String := "schema.plain"

def checkKeys (allowed : List String) (n : Node) : Decoder Unit := do
  match n with
  | .mapping _ _ entries =>
    match (entries.map (·.1)).find? fun k => !allowed.contains k.text with
    | some k => refuse k (.unknownKey k.text)
    | none => pure ()
  | _ => refuse n .notMapping

def entriesFrom {α : Type} (d : Document) (shape : Shape α) (type : String) :
    Option (List String) → List String → α → List (Node × Node) →
      Decoder (α × Option (List String))
  | merged, _, a, [] => pure (a, merged)
  | merged, done, a, (k, v) :: rest => do
    if isMergeKey k then entriesFrom d shape type merged done a rest
    else
      match ← string d k with
      | none => entriesFrom d shape type merged done a rest
      | some name =>
        let (known, merged) ← noteKey merged (.text name)
        if known || !shape.keys.contains name then entriesFrom d shape type merged done a rest
        else if done.contains name then
          mismatch (.repeatedField k.place.line name type)
          entriesFrom d shape type merged done a rest
        else
          let a ← shape.set a name v
          entriesFrom d shape type merged (name :: done) a rest

def entries {α : Type} (d : Document) (shape : Shape α) (type : String) (a : α)
    (es : List (Node × Node)) : Decoder α := do
  let outer := (← get).merged
  modify fun s => { s with merged := none }
  let (a, merged) ← entriesFrom d shape type outer [] a es
  modify fun s => { s with merged }
  pure a

def declare {α : Type} (d : Document) (shape : Shape α) (a : α) (n : Node) : Decoder α := do
  checkKeys shape.keys n
  let a := shape.place a (positionOf n)
  anew do
    visit
    match n with
    | .mapping _ _ es =>
      if ← haveUniqueKeys es then entries d shape contentName a es else pure a
    | _ => pure a

/-- Reads a node into a declaration; none if there is nothing to read. A mapping with the tag of
the empty value is not looked at as a declaration: what it holds is read, its place is unknown,
and other mappings may be merged into it. The fuel bounds how deep. -/
def into {α : Type} (d : Document) (shape : Shape α) : Nat → α → Node → Decoder (Option α)
  | 0, a, _ => pure (some a)
  | fuel + 1, a, n =>
    enter d n fun n => do
      if n.tag = Tag.null then
        match n with
        | .mapping _ _ es =>
          if ← haveUniqueKeys es then
            let a ← entries d shape shape.name a es
            match mergeOf? es with
            | none => pure (some a)
            | some m =>
              let read (a : α) (n : Node) := do pure ((← into d shape fuel a n).getD a)
              some <$> merge d (value d fuel) read (es.map (·.1)) m a
          else pure none
        | _ => fit shape.name (fun _ _ => none) n
      else some <$> declare d shape a n

def record {α : Type} [Inhabited α] (d : Document) (shape : Shape α) (n : Node) :
    Decoder (Option α) :=
  into d shape d.depthBound default n

def fieldShape (d : Document) : Shape FieldDecl where
  name := "schema.fieldDecl"
  keys := ["name", "type", "offset"]
  place f position := { f with position }
  set f key v := do
    match key with
    | "name" => pure { f with name := (← string d v).getD f.name }
    | "type" => pure { f with type := (← string d v).getD f.type }
    | _ => pure { f with offset := ← uint32 d v }

def payloadShape (d : Document) : Shape PayloadDecl where
  name := "schema.payloadDecl"
  keys := ["type", "offset"]
  place p position := { p with position }
  set p key v := do
    match key with
    | "type" => pure { p with type := (← string d v).getD p.type }
    | _ => pure { p with offset := ← uint32 d v }

def payload (d : Document) (n : Node) : Decoder (Option PayloadDecl) :=
  match d.follow n with
  | .scalar _ tag text =>
    if tag = Tag.null then record d (payloadShape d) n
    else enter d n fun n => pure (some { type := text, position := positionOf n })
  | _ => record d (payloadShape d) n

def variantShape (d : Document) : Shape VariantDecl where
  name := "schema.variantDecl"
  keys := ["name", "payload"]
  place v position := { v with position }
  set v key value := do
    match key with
    | "name" => pure { v with name := (← string d value).getD v.name }
    | _ => pure { v with payload := ← list "[]schema.payloadDecl" (payload d) d value }

def typeShape (d : Document) : Shape TypeDecl where
  name := "schema.typeDecl"
  keys := ["struct", "union", "size", "fields", "variants"]
  place t position := { t with position }
  set t key v := do
    match key with
    | "struct" => pure { t with struct := (← string d v).getD t.struct }
    | "union" => pure { t with union := (← string d v).getD t.union }
    | "size" => pure { t with size := ← uint32 d v }
    | "fields" =>
      pure { t with fields := ← list "[]schema.fieldDecl" (record d (fieldShape d)) d v }
    | _ =>
      pure { t with variants := ← list "[]schema.variantDecl" (record d (variantShape d)) d v }

def descriptionShape (d : Document) : Shape Description where
  name := "schema.document"
  keys := ["module", "write", "types"]
  place t position := { t with position }
  set t key v := do
    match key with
    | "module" => pure { t with module := (← string d v).getD t.module }
    | "write" => pure { t with writable := (← boolean d v).getD t.writable }
    | _ => pure { t with types := ← list "[]schema.typeDecl" (record d (typeShape d)) d v }

def description (d : Document) : Decoder Description := do
  visit
  pure ((← record d (descriptionShape d) d.root).getD {})

end WordLayout.Decode
