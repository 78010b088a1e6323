import WordLayout.TypeExpr
import WordLayout.Validation

/-!
Drafts: modules in which definitions are still referred to by name. Building a draft interns the
names, resolves every type expression to a handle and validates the result.
-/

namespace WordLayout

structure FieldDraft where
  name : String
  offset : UInt32
  ty : TypeExpr
  size : UInt32 := 0
  deriving DecidableEq, Inhabited

structure PayloadDraft where
  offset : UInt32
  ty : TypeExpr
  deriving DecidableEq, Inhabited

structure VariantDraft where
  name : String
  payload : List PayloadDraft
  deriving DecidableEq, Inhabited

inductive BodyDraft
  | struct (fields : List FieldDraft)
  | union (variants : List VariantDraft)
  deriving DecidableEq, Inhabited

structure DefDraft where
  name : String
  size : UInt32
  body : BodyDraft
  deriving DecidableEq, Inhabited

structure Draft where
  name : String
  writable : Bool := false
  defs : List DefDraft := []
  deriving DecidableEq, Inhabited

namespace Draft

def setWritable (d : Draft) (writable : Bool) : Draft := { d with writable }

def add (d : Draft) (spec : DefDraft) : Draft := { d with defs := d.defs ++ [spec] }

def isUnion (spec : DefDraft) : Bool :=
  match spec.body with
  | .union _ => true
  | .struct _ => false

def index (d : Draft) : List (String × Handle) :=
  d.defs.zipIdx.map fun (spec, i) => (spec.name, UInt32.ofNat i)

def skeleton (d : Draft) : Module :=
  { name := d.name, writable := d.writable, index := some d.index
    defs := d.defs.map fun spec => { name := spec.name, size := spec.size, body := .missing } }

def nameErrors (d : Draft) : List ValidationError :=
  let names := d.defs.map (·.name)
  (names.zip (Validation.repeats [] names)).filterMap fun (name, again) =>
    if again then some { flaw := .duplicateDefinition, type := name } else none

def resolve (d : Draft) : TypeExpr → Except String Ty
  | .scalar kind => .ok (.scalar kind)
  | .vector kind lanes => .ok (.vector kind lanes)
  | .inline name =>
    match d.index.lookup name with
    | some h => .ok (.inline h)
    | none => .error name
  | .ref name =>
    match d.index.lookup name with
    | some h => .ok (.ref h)
    | none => .error name

def resolveField (d : Draft) (f : FieldDraft) : Except String Field := do
  let ty ← d.resolve f.ty
  pure { name := f.name, offset := f.offset, ty
         size := if f.size = 0 then d.skeleton.sizeOf ty else f.size }

def resolveItem (d : Draft) (p : PayloadDraft) : Except String PayloadItem := do
  let ty ← d.resolve p.ty
  pure { offset := p.offset, ty, size := d.skeleton.sizeOf ty }

def payloadOf (d : Draft) (specs : List PayloadDraft) (items : List PayloadItem) : Payload :=
  match specs, items with
  | _, [] => .empty
  | spec :: _, [item] =>
    match item.ty with
    | .inline h =>
      if (d.defs[h.toNat]?.map isUnion).getD false then
        .unsupported items
          ("payload " ++ spec.ty.render ++ " is a union, only structs are supported")
      else .struct item.offset h
    | _ => .unsupported items ("payload of type " ++ spec.ty.render ++ " is not a struct")
  | _, items =>
    .unsupported items
      ("payload has " ++ toString items.length ++ " items, only a single struct is supported")

def resolvePayload (d : Draft) (specs : List PayloadDraft) : Except String Payload := do
  pure (d.payloadOf specs (← specs.mapM d.resolveItem))

def value? {ε α : Type} : Except ε α → Option α
  | .ok a => some a
  | .error _ => none

def resolveBody (d : Draft) : BodyDraft → Body
  | .struct fields => .struct (fields.filterMap fun f => value? (d.resolveField f))
  | .union variants =>
    .union (variants.map fun v =>
      { name := v.name, payload := (value? (d.resolvePayload v.payload)).getD .empty })

def unknownNames (d : Draft) (spec : DefDraft) : List ValidationError :=
  let error (member name : String) : ValidationError :=
    { flaw := .unknownName name, type := spec.name, member }
  match spec.body with
  | .struct fields =>
    fields.filterMap fun f =>
      match d.resolveField f with
      | .ok _ => none
      | .error name => some (error f.name name)
  | .union variants =>
    variants.filterMap fun v =>
      match d.resolvePayload v.payload with
      | .ok _ => none
      | .error name => some (error v.name name)

def resolved (d : Draft) : Module :=
  { d.skeleton with
    defs := d.defs.map fun spec =>
      { name := spec.name, size := spec.size, body := d.resolveBody spec.body } }

/-- Repeated definition names are reported alone, then unknown names alone, then the flaws of the
resolved module. -/
def build (d : Draft) : Except (List ValidationError) Module :=
  match d.nameErrors with
  | e :: es => .error (e :: es)
  | [] =>
    match d.defs.flatMap d.unknownNames with
    | e :: es => .error (e :: es)
    | [] =>
      match d.resolved.validate with
      | e :: es => .error (e :: es)
      | [] => .ok d.resolved

end Draft

end WordLayout
