import WordLayout.Validation.Error

/-!
Validation: the list of everything that is wrong with a module, in the order of the checks. Names
come first, then each definition on its own, then the order of definitions: what a definition
holds inline must be declared before it, and a dependency that leads back is a cycle.
-/

namespace WordLayout

namespace Validation

def repeats {α : Type} [DecidableEq α] : List α → List α → List Bool
  | _, [] => []
  | seen, x :: xs => seen.contains x :: repeats (x :: seen) xs

def nameErrors (m : Module) : List ValidationError :=
  let names := m.defs.map (·.name)
  (names.zip (repeats [] names)).filterMap fun (name, again) =>
    if again then some { flaw := .duplicateDefinition, type := name } else none

def targetFlaw? (m : Module) (usage : Usage) (target : Handle) : Option Flaw :=
  match m.def? target with
  | none => some (.noTarget usage target)
  | some d => if d.isUnion then some (.unionTarget usage d.name) else none

def typeFlaw? (m : Module) : Ty → Option Flaw
  | .scalar kind => if kind.isKnown then none else some (.unknownKind kind)
  | .vector kind lanes =>
    if !kind.isKnown then some (.unknownKind kind)
    else if 1 ≤ lanes ∧ lanes ≤ 4 then none
    else some (.laneCount lanes)
  | .inline target => targetFlaw? m .inline target
  | .ref target => targetFlaw? m .reference target
  | .missing => some .missingType

def alignment : Ty → UInt32
  | .scalar kind => kind.size
  | .vector kind _ => kind.size
  | _ => 4

def isSized (m : Module) (f : Field) : Bool :=
  (typeFlaw? m f.ty).isNone && f.size == m.sizeOf f.ty

def fieldFlaws (m : Module) (size : UInt32) (f : Field) : List Flaw :=
  match typeFlaw? m f.ty with
  | some flaw => [flaw]
  | none =>
    if f.size ≠ m.sizeOf f.ty then [.sizeMismatch f.size (m.sizeOf f.ty)]
    else
      (if f.offset % alignment f.ty = 0 then []
        else [.unalignedOffset f.offset (alignment f.ty)]) ++
      (if size < f.offset + f.size then [.fieldOutOfBounds f.offset (f.offset + f.size) size]
        else [])

def overlaps (fields : List Field) : List (Field × Field) :=
  let sorted := fields.mergeSort fun a b => a.offset ≤ b.offset
  (sorted.zip sorted.tail).filter fun (a, b) => b.offset < a.offset + a.size

def structErrors (m : Module) (d : TypeDef) (fields : List Field) : List ValidationError :=
  if fields.isEmpty then [{ flaw := .emptyStruct, type := d.name }]
  else
    ((fields.zip (repeats [] (fields.map (·.name)))).flatMap fun (f, again) =>
      ((if again then [Flaw.duplicateField] else []) ++ fieldFlaws m d.size f).map fun flaw =>
        { flaw, type := d.name, member := f.name }) ++
    (overlaps fields).map fun (a, b) =>
      { flaw := .overlap a.name, type := d.name, member := b.name }

def payloadFlaws (m : Module) (size : UInt32) : Payload → List Flaw
  | .struct offset target =>
    match targetFlaw? m .inline target with
    | some flaw => [flaw]
    | none =>
      let stop := offset + m.sizeOf (.inline target)
      if offset < 4 then [.payloadOverTag offset]
      else if offset % 4 ≠ 0 then [.unalignedPayload offset]
      else if size < stop then [.payloadOutOfBounds offset stop size]
      else []
  | _ => []

def unionErrors (m : Module) (d : TypeDef) (variants : List Variant) : List ValidationError :=
  if variants.isEmpty then [{ flaw := .emptyUnion, type := d.name }]
  else
    (if d.size < 4 then [{ flaw := .noRoomForTag d.size, type := d.name }] else []) ++
    (variants.zip (repeats [] (variants.map (·.name)))).flatMap fun (v, again) =>
      ((if again then [Flaw.duplicateVariant] else []) ++ payloadFlaws m d.size v.payload).map
        fun flaw => { flaw, type := d.name, member := v.name }

def defErrors (m : Module) (d : TypeDef) : List ValidationError :=
  (if d.size % 4 = 0 then [] else [{ flaw := .unalignedSize d.size, type := d.name }]) ++
  match d.body with
  | .struct fields => structErrors m d fields
  | .union variants => unionErrors m d variants
  | .missing => [{ flaw := .missingBody, type := d.name }]

def dependencies (m : Module) (d : TypeDef) : List Handle :=
  match d.body with
  | .struct fields =>
    fields.filterMap fun f =>
      match f.ty with
      | .inline target => if isSized m f then some target else none
      | _ => none
  | .union variants =>
    variants.filterMap fun v =>
      match v.payload with
      | .struct _ target =>
        if (targetFlaw? m .inline target).isNone then some target else none
      | _ => none
  | .missing => []

def graph (m : Module) : List (List Handle) := m.defs.map (dependencies m)

def edges (g : List (List Handle)) (h : Handle) : List Handle := g[h.toNat]?.getD []

/-- Searches a path from `h` to `goal`, depth first and in the order of the edges. The first
component holds the definitions that were searched in vain or are being searched. -/
def search (g : List (List Handle)) (goal : Handle) :
    Nat → List Handle → Handle → List Handle × Option (List Handle)
  | 0, visited, _ => (visited, none)
  | fuel + 1, visited, h =>
    if h = goal then (visited, some [h])
    else if visited.contains h then (visited, none)
    else
      (edges g h).foldl (fun (visited, found) next =>
          match found with
          | some path => (visited, some path)
          | none =>
            let (visited, rest) := search g goal fuel visited next
            (visited, rest.map (h :: ·)))
        (h :: visited, none)

def path? (g : List (List Handle)) (h goal : Handle) : Option (List Handle) :=
  (search g goal (g.length + 1) [] h).2

/-- A cycle is known by the definitions on it, wherever it was entered. -/
def cycleKey (path : List Handle) : List Handle := path.mergeSort (· ≤ ·)

def edgeErrors (m : Module) (g : List (List Handle)) (h dep : Handle)
    (reported : List (List Handle)) : List ValidationError × List (List Handle) :=
  if dep < h then ([], reported)
  else
    match path? g dep h with
    | some path =>
      if reported.contains (cycleKey path) then ([], reported)
      else
        ([{ flaw := .cycle (m.nameOf h :: path.map m.nameOf), type := m.nameOf h }],
          cycleKey path :: reported)
    | none => ([{ flaw := .forwardReference (m.nameOf dep), type := m.nameOf h }], reported)

def allEdges (g : List (List Handle)) : List (Handle × Handle) :=
  g.zipIdx.flatMap fun (deps, i) => deps.map fun dep => (UInt32.ofNat i, dep)

def orderErrors (m : Module) : List ValidationError :=
  let g := graph m
  ((allEdges g).foldl (fun (errors, reported) (h, dep) =>
      let (new, reported) := edgeErrors m g h dep reported
      (errors ++ new, reported)) ([], [])).1

end Validation

def Module.validate (m : Module) : List ValidationError :=
  Validation.nameErrors m ++ m.defs.flatMap (Validation.defErrors m) ++ Validation.orderErrors m

end WordLayout
