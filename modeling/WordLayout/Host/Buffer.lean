import WordLayout.BitPlan
import WordLayout.Coverage
import WordLayout.Host.Error
import WordLayout.Host.Value
import WordLayout.TypeExpr

/-!
The host codec: structs and unions in a buffer of words, packed exactly as the emitted accessors
pack them. Offsets are byte offsets and must be word aligned. A write encodes into a copy of the
words of its definition and stores that copy only when everything has been encoded, so that a
failed write leaves the buffer as it was.
-/

namespace WordLayout.Host

structure Buffer where
  module : Module
  words : Array UInt32
  deriving Inhabited

namespace Buffer

def refuse {α : Type} (direction : Direction) (path : List String) (cause : Cause) :
    Except Fault α :=
  .error (.refused { direction, cause, path })

def structDef (m : Module) (direction : Direction) (path : List String) (h : Handle) :
    Except Fault (TypeDef × List Field) :=
  match m.def? h with
  | none => refuse direction path (.noDefinition h)
  | some d =>
    match d.body with
    | .struct fields => .ok (d, fields)
    | _ => refuse direction path (.notStruct d.name)

def unionDef (m : Module) (direction : Direction) (h : Handle) :
    Except Fault (TypeDef × List Variant) :=
  match m.def? h with
  | none => refuse direction [] (.noDefinition h)
  | some d =>
    match d.body with
    | .union variants => .ok (d, variants)
    | _ => refuse direction [d.name] (.notUnion d.name)

def base (count : Nat) (direction : Direction) (d : TypeDef) (offset : UInt32) :
    Except Fault UInt32 :=
  if offset % 4 ≠ 0 then refuse direction [d.name] (.misaligned offset)
  else if count < (offset / 4).toNat + (d.size / 4).toNat then
    refuse direction [d.name] (.outOfBounds offset d.size count)
  else .ok (offset / 4)

def wordAt (words : Array UInt32) (i : UInt32) : Except Fault UInt32 :=
  match words[i.toNat]? with
  | some w => .ok w
  | none => .error .outsideWords

def payloadOf (direction : Direction) (d : TypeDef) (variants : List Variant) (tag : UInt32) :
    Except Fault (String × Option (UInt32 × Handle)) :=
  match variants[tag.toNat]? with
  | none => refuse direction [d.name] (.invalidTag tag variants.length)
  | some v =>
    match v.payload with
    | .struct offset target => .ok (v.name, some (offset, target))
    | .unsupported _ reason => refuse direction [d.name, v.name] (.unsupportedPayload reason)
    | .empty | .missing => .ok (v.name, none)

def loadRaw (words : Array UInt32) (ix : UInt32) (groups : List Group) :
    Except Fault (Array UInt32) := do
  pure (← groups.mapM fun g => if g.needsRaw then wordAt words (ix + g.word) else .ok 0).toArray

def decodeScalar (raw : Array UInt32) (offset : UInt32) (kind : ScalarKind) :
    Except Fault Value := do
  let plan := Extract.plan offset kind
  pure (Value.ofBits kind (plan.bits (← wordAt raw plan.word)))

def decodeStruct (m : Module) (words : Array UInt32) :
    Nat → List String → Handle → UInt32 → Except Fault Value
  | 0, _, _, _ => .error .endless
  | fuel + 1, path, h, offset => do
    let (d, fields) ← structDef m .read path h
    let ix ← base words.size .read d offset
    let raw ← loadRaw words ix (Coverage.resolve fields d.size .read)
    let values ← fields.mapM fun f =>
      match f.ty with
      | .scalar kind => decodeScalar raw f.offset kind
      | .vector kind lanes => do
        pure (.vector (← (List.range lanes.toNat).mapM fun lane =>
          decodeScalar raw (f.offset + UInt32.ofNat lane * kind.size) kind))
      | .ref _ => do pure (.ref (← wordAt raw (f.offset / 4)))
      | .inline target =>
        decodeStruct m words fuel (path ++ [d.name, f.name]) target (offset + f.offset)
      | .missing => .ok .nil
    pure (.struct h values)

/-- Nested structs lie at different places of the buffer or are different definitions, unless the
nesting has no end. -/
def depth (b : Buffer) : Nat := b.module.defs.length * (b.words.size + 1) + 1

def nameOrHandle (m : Module) (h : Handle) : String :=
  match m.def? h with
  | some d => d.name
  | none => "def(" ++ toString h.toNat ++ ")"

def wrongType {α : Type} (path : List String) (wanted : String) (given : Value) :
    Except Fault α :=
  refuse .write path (.wrongType wanted given.typeName)

def encodeScalar (path : List String) (offset : UInt32) (kind : ScalarKind) (value : Value) :
    Except Fault UInt32 :=
  match value.bits? kind with
  | some bits => .ok ((Insert.plan offset kind false).bits bits)
  | none => wrongType path kind.name value

def encodeLeaf (path : List String) (p : Piece) (ty : Ty) (value : Value) : Except Fault UInt32 :=
  match ty with
  | .scalar kind => encodeScalar path p.offset kind value
  | .vector kind lanes =>
    match value with
    | .vector vs =>
      if vs.length = lanes.toNat then
        match p.lane.bind (vs[·]?) with
        | some lane => encodeScalar path p.offset kind lane
        | none => .error .outsideWords
      else wrongType path (TypeExpr.vector kind lanes).render value
    | _ => wrongType path (TypeExpr.vector kind lanes).render value
  | .ref _ =>
    match value with
    | .ref r => .ok r
    | _ => wrongType path "ref" value
  | .inline _ | .missing => .ok 0

def storeWord (words : Array UInt32) (i w : UInt32) : Except Fault (Array UInt32) :=
  if i.toNat < words.size then .ok (words.set! i.toNat w) else .error .outsideWords

def encodeStruct (m : Module) (path : List String) (window : Array UInt32) (offset : UInt32)
    (h : Handle) (values : List Value) : Except Fault (Array UInt32) := do
  let (d, fields) ← structDef m .write path h
  let path := path ++ [d.name]
  if values.length ≠ fields.length then
    refuse .write path (.fieldCount values.length fields.length)
  else
    (Coverage.resolve fields d.size .write).foldlM (fun window g => do
      let (word, window) ← g.pieces.foldlM (fun (word, window) p =>
        match _hv : values[p.field]?, fields[p.field]? with
        | some value, some f =>
          let path := path ++ [f.name]
          match f.ty, _hs : value with
          | .inline target, .struct given inner =>
            if given = target then do
              pure (word, ← encodeStruct m path window (offset + f.offset) given inner)
            else wrongType path (nameOrHandle m target) value
          | .inline target, _ => wrongType path (nameOrHandle m target) value
          | ty, _ => do pure (word ||| (← encodeLeaf path p ty value), window)
        | _, _ => .error .outsideWords) ((0 : UInt32), window)
      if g.needsRaw then storeWord window (offset / 4 + g.word) word else pure window) window
termination_by sizeOf values
decreasing_by
  subst _hs
  have h1 := List.sizeOf_lt_of_mem (List.mem_of_getElem? _hv)
  simp only [Value.struct.sizeOf_spec] at h1
  omega

def replaceWords (words : Array UInt32) (ix : Nat) (window : Array UInt32) : Array UInt32 :=
  words.extract 0 ix ++ window ++ words.extract (ix + window.size) words.size

def window (words : Array UInt32) (ix : UInt32) (d : TypeDef) : Array UInt32 :=
  words.extract ix.toNat (ix.toNat + (d.size / 4).toNat)

def index (b : Buffer) (h : Handle) (offset i : UInt32) : UInt32 :=
  offset + i * b.module.sizeOf (.inline h)

def readStruct (b : Buffer) (h : Handle) (offset : UInt32) : Except Fault Value :=
  decodeStruct b.module b.words b.depth [] h offset

/-- Every word that holds a field is overwritten as a whole, which clears its padding bits; words
that hold only padding keep their contents. -/
def writeStruct (b : Buffer) (offset : UInt32) (h : Handle) (fields : List Value) :
    Except Fault Buffer := do
  let (d, _) ← structDef b.module .write [] h
  let ix ← base b.words.size .write d offset
  let scratch ← encodeStruct b.module [] (window b.words ix d) 0 h fields
  pure { b with words := replaceWords b.words ix.toNat scratch }

def tag (b : Buffer) (h : Handle) (offset : UInt32) : Except Fault UInt32 := do
  let (d, _) ← unionDef b.module .read h
  wordAt b.words (← base b.words.size .read d offset)

def readVariant (b : Buffer) (h : Handle) (tag offset : UInt32) : Except Fault Value := do
  let (d, variants) ← unionDef b.module .read h
  let _ ← base b.words.size .read d offset
  match ← payloadOf .read d variants tag with
  | (name, some (at_, target)) =>
    decodeStruct b.module b.words b.depth [d.name, name] target (offset + at_)
  | (name, none) => refuse .read [d.name, name] .noPayload

def checkPayload (m : Module) (path : List String) (target : Option Handle)
    (payload : Option (Handle × List Value)) : Except Fault Unit :=
  match target, payload with
  | none, none => .ok ()
  | none, some _ => refuse .write path .noPayload
  | some _, none => refuse .write path .missingPayload
  | some target, some (given, _) =>
    if given = target then .ok ()
    else refuse .write path (.wrongPayload (nameOrHandle m given) (nameOrHandle m target))

def writeVariant (b : Buffer) (h : Handle) (tag offset : UInt32)
    (payload : Option (Handle × List Value)) : Except Fault Buffer := do
  let (d, variants) ← unionDef b.module .write h
  let ix ← base b.words.size .write d offset
  let (name, place) ← payloadOf .write d variants tag
  let path := [d.name, name]
  checkPayload b.module path (place.map (·.2)) payload
  let scratch ← storeWord (window b.words ix d) 0 tag
  let scratch ←
    match place, payload with
    | some (at_, _), some (given, fields) =>
      encodeStruct b.module path scratch at_ given fields
    | _, _ => pure scratch
  pure { b with words := replaceWords b.words ix.toNat scratch }

def writeUnion (b : Buffer) (h : Handle) (offset tag : UInt32)
    (payload : Option (Handle × List Value)) : Except Fault Buffer :=
  b.writeVariant h tag offset payload

def readUnion (b : Buffer) (h : Handle) (offset : UInt32) : Except Fault UnionValue := do
  let (d, variants) ← unionDef b.module .read h
  let tag ← wordAt b.words (← base b.words.size .read d offset)
  match ← payloadOf .read d variants tag with
  | (name, some (at_, target)) => do
    let payload ← decodeStruct b.module b.words b.depth [d.name, name] target (offset + at_)
    pure { tag, payload := some payload }
  | (_, none) => pure { tag, payload := none }

end Buffer

end WordLayout.Host
