import WordLayout.Description.Error
import WordLayout.Draft

/-!
Placing the members of a description. A member whose offset is left out goes to the next place
behind the member before it that has its alignment; a struct whose size is left out ends with its
last member, rounded up to words, and a union with its largest variant. Payloads start behind the
tag. All arithmetic wraps around at 32 bits.
-/

namespace WordLayout

namespace Placement

def alignUp (v align : UInt32) : UInt32 :=
  if align ≤ 1 then v else (v + align - 1) / align * align

def tagSize : UInt32 := 4

/-- Size and alignment of a type, given the sizes of the definitions so far and the names of all
definitions. Only what is already placed can be held inline. -/
def measure (sizes : List (String × UInt32)) (declared : List String) :
    TypeExpr → Except MemberFault (UInt32 × UInt32)
  | .scalar kind => .ok (kind.size, kind.size)
  | .vector kind lanes => .ok (kind.size * lanes.toUInt32, kind.size)
  | .ref _ => .ok (4, 4)
  | .inline name =>
    match sizes.lookup name with
    | some size => .ok (size, 4)
    | none => if declared.contains name then .error (.later name) else .error (.unknown name)

structure Extent where
  cursor : UInt32
  stop : UInt32
  auto : Nat := 0
  deriving DecidableEq, Inhabited

def Extent.add (e : Extent) (given : Option UInt32) (size align : UInt32) : UInt32 × Extent :=
  let offset := given.getD (alignUp e.cursor align)
  let cursor := offset + size
  (offset,
    { cursor, stop := if e.stop < cursor then cursor else e.stop
      auto := if given.isNone then e.auto + 1 else e.auto })

def typeOf (sizes : List (String × UInt32)) (declared : List String) (text : String) :
    Except MemberFault (TypeExpr × UInt32 × UInt32) := do
  let ty ← (TypeExpr.parse text).mapError .type
  pure (ty, ← measure sizes declared ty)

def placeFields (sizes : List (String × UInt32)) (declared : List String) (type : String) :
    Extent → List FieldDecl → Except Located (List FieldDraft × Extent)
  | e, [] => .ok ([], e)
  | e, f :: fs => do
    if f.name = "" then throw ⟨.unnamedField type, f.position⟩
    let (ty, size, align) ← (typeOf sizes declared f.type).mapError fun fault =>
      ⟨.field type f.name fault, f.position⟩
    let (offset, e) := e.add f.offset size align
    let (rest, e) ← placeFields sizes declared type e fs
    pure ({ name := f.name, offset, ty } :: rest, e)

def placePayload (sizes : List (String × UInt32)) (declared : List String)
    (type variant : String) :
    Extent → List PayloadDecl → Except Located (List PayloadDraft × Extent)
  | e, [] => .ok ([], e)
  | e, p :: ps => do
    let (ty, size, align) ← (typeOf sizes declared p.type).mapError fun fault =>
      ⟨.variant type variant fault, p.position⟩
    let (offset, e) := e.add p.offset size align
    let (rest, e) ← placePayload sizes declared type variant e ps
    pure ({ offset, ty } :: rest, e)

def placeVariants (sizes : List (String × UInt32)) (declared : List String) (type : String) :
    Extent → List VariantDecl → Except Located (List VariantDraft × Extent)
  | e, [] => .ok ([], e)
  | e, v :: vs => do
    if v.name = "" then throw ⟨.unnamedVariant type, v.position⟩
    let (payload, e) ←
      placePayload sizes declared type v.name { e with cursor := tagSize } v.payload
    let (rest, e) ← placeVariants sizes declared type e vs
    pure ({ name := v.name, payload } :: rest, e)

def placeDef (sizes : List (String × UInt32)) (declared : List String) (d : TypeDecl) :
    Except Located (DefDraft × Nat) := do
  if d.struct ≠ "" then
    if d.union ≠ "" then throw ⟨.structAndUnion d.struct d.union, d.position⟩
    if !d.variants.isEmpty then throw ⟨.structWithVariants d.struct, d.position⟩
    let (fields, e) ← placeFields sizes declared d.struct ⟨0, 0, 0⟩ d.fields
    pure (⟨d.struct, d.size.getD (alignUp e.stop 4), .struct fields⟩, e.auto)
  else if d.union ≠ "" then
    if !d.fields.isEmpty then throw ⟨.unionWithFields d.union, d.position⟩
    let (variants, e) ← placeVariants sizes declared d.union ⟨tagSize, tagSize, 0⟩ d.variants
    pure (⟨d.union, d.size.getD (alignUp e.stop 4), .union variants⟩, e.auto)
  else throw ⟨.noName, d.position⟩

def placeDefs (declared : List String) :
    List (String × UInt32) → List TypeDecl → Except Located (List DefDraft × Nat)
  | _, [] => .ok ([], 0)
  | sizes, d :: ds => do
    let (spec, auto) ← placeDef sizes declared d
    let (rest, more) ← placeDefs declared ((spec.name, spec.size) :: sizes) ds
    pure (spec :: rest, auto + more)

def nameOf (d : TypeDecl) : String := if d.struct = "" then d.union else d.struct

def memberKey (type member : String) : String := type ++ "." ++ member

def memberPlaces (d : TypeDecl) : List (String × Position) :=
  d.fields.map (fun f => (memberKey (nameOf d) f.name, f.position)) ++
    d.variants.map fun v => (memberKey (nameOf d) v.name, v.position)

def positionOf (types : List TypeDecl) (type member : String) : Position :=
  match ((types.flatMap memberPlaces).reverse).lookup (memberKey type member) with
  | some p => p
  | none =>
    (((types.map fun d => (nameOf d, d.position)).reverse).lookup type).getD {}

end Placement

namespace Description

def place (d : Description) : Except Located (Draft × Nat) := do
  if d.module = "" then throw ⟨.noModule, d.position⟩
  if d.types.isEmpty then throw ⟨.noTypes d.module, d.position⟩
  let declared := (d.types.flatMap fun t => [t.struct, t.union]).filter (· ≠ "")
  let (defs, auto) ← Placement.placeDefs declared [] d.types
  pure ({ name := d.module, writable := d.writable, defs }, auto)

def locate (d : Description) (errors : List ValidationError) : Located :=
  let position :=
    match errors with
    | [] => {}
    | e :: _ => Placement.positionOf d.types e.type e.member
  ⟨.invalid errors, position⟩

def build (d : Description) : Except Located (Module × Nat) := do
  let (draft, auto) ← d.place
  match draft.build with
  | .ok m => pure (m, auto)
  | .error errors => throw (d.locate errors)

end Description

end WordLayout
