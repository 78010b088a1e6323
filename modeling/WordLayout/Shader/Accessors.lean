import WordLayout.BitPlan
import WordLayout.Coverage
import WordLayout.Shader.Program

namespace WordLayout.Shader

/-- Choices of the caller. An empty buffer name stands for the module's name and an empty header
for `Options.defaultHeader`. -/
structure Options where
  bufferName : String := ""
  header : String := ""
  maskUnsigned : Bool := false
  skipUnsupported : Bool := false
  binding : Option Binding := none
  deriving DecidableEq, Inhabited

def Options.defaultHeader : String := "Code auto-generated by gpulayout"

def extractExpr (offset : UInt32) (kind : ScalarKind) : Expr :=
  let e := Extract.plan offset kind
  let raw := Expr.raw e.word
  match e.op with
  | .word => raw
  | .mask => .mask raw e.mask
  | .shift => .shiftRight raw e.shift
  | .shiftMask => .mask (.group (.shiftRight raw e.shift)) e.mask
  | .float => .floatFromBits raw
  | .int => .intFromBits raw
  | .intShift => .shiftRight (.intFromBits raw) e.shift
  | .intPair => .shiftRight (.intFromBits (.shiftLeft raw e.up)) e.shift

def insertExpr (maskUnsigned : Bool) (offset : UInt32) (kind : ScalarKind) (value : Expr) :
    Expr :=
  let i := Insert.plan offset kind maskUnsigned
  let bits :=
    if kind.isFloat then .floatToBits value
    else if kind.isSigned then .intToBits value
    else value
  let masked := if i.mask = 0 then bits else .group (.mask bits i.mask)
  if i.shift = 0 then masked else .group (.shiftLeft masked i.shift)

def memberType (m : Module) : Ty → TypeName
  | .scalar k => .scalar k
  | .vector k lanes => if lanes = 1 then .scalar k else .vector k lanes
  | .inline h => .struct (m.nameOf h)
  | .ref h => .handle (m.nameOf h)
  | .missing => .struct ""

def fieldSource (m : Module) (f : Field) : Source :=
  match f.ty with
  | .scalar k => .scalar (extractExpr f.offset k)
  | .vector k lanes =>
    .vector (memberType m f.ty) <| (List.range lanes.toNat).map fun lane =>
      extractExpr (f.offset + UInt32.ofNat lane * k.size) k
  | .inline h => .nested (m.nameOf h) f.offset
  | .ref h => .handle (m.nameOf h) (extractExpr f.offset .u32)
  | .missing => .nested "" 0

def baseStmts (groups : List Group) : List Stmt :=
  if groups.any Group.needsRaw then [.base] else []

def readBody (m : Module) (d : TypeDef) (fields : List Field) : List Stmt :=
  let groups := Coverage.resolve fields d.size .read
  baseStmts groups ++
    (groups.filter Group.needsRaw).map (fun g => .load g.word) ++
    [.declare d.name] ++
    fields.map (fun f => .assign f.name (fieldSource m f)) ++
    [.returnStruct]

def pieceExpr? (maskUnsigned : Bool) (fields : List Field) (p : Piece) : Option Expr := do
  let f ← fields[p.field]?
  match f.ty with
  | .scalar k => some (insertExpr maskUnsigned p.offset k (.member f.name none))
  | .vector k lanes =>
    let lane := if 1 < lanes then p.lane else none
    some (insertExpr maskUnsigned p.offset k (.member f.name lane))
  | .ref _ => some (.offset f.name)
  | .inline _ | .missing => none

def pieceWrite? (m : Module) (fields : List Field) (p : Piece) : Option Stmt := do
  let f ← fields[p.field]?
  match f.ty with
  | .inline h => some (.write (m.nameOf h) f.offset (.member f.name))
  | _ => none

def groupStmts (m : Module) (maskUnsigned : Bool) (fields : List Field) (g : Group) : List Stmt :=
  let parts := g.pieces.filterMap (pieceExpr? maskUnsigned fields)
  g.pieces.filterMap (pieceWrite? m fields) ++
    if parts.isEmpty then [] else [.store g.word parts]

def writeBody (m : Module) (maskUnsigned : Bool) (d : TypeDef) (fields : List Field) :
    List Stmt :=
  let groups := Coverage.resolve fields d.size .write
  baseStmts groups ++ groups.flatMap (groupStmts m maskUnsigned fields)

def indexFunction (d : TypeDef) : Function :=
  { name := d.name ++ "_index", owner := d.name, extra := .index
    result := some (.handle d.name), body := [.returnElement d.name] }

def readFunction (m : Module) (d : TypeDef) (fields : List Field) : Function :=
  { name := d.name ++ "_read", owner := d.name, extra := .none
    result := some (.struct d.name), body := readBody m d fields }

def writeFunction (m : Module) (maskUnsigned : Bool) (d : TypeDef) (fields : List Field) :
    Function :=
  { name := d.name ++ "_write", owner := d.name, extra := .struct d.name
    result := none, body := writeBody m maskUnsigned d fields }

def tagFunction (d : TypeDef) : Function :=
  { name := d.name ++ "_tag", owner := d.name, extra := .none
    result := some (.scalar .u32), body := [.returnTag] }

def tagName (d : TypeDef) (v : Variant) : String := d.name ++ "_" ++ v.name

def variantRead (m : Module) (d : TypeDef) (v : Variant) : List Item :=
  let name := tagName d v ++ "_read"
  match v.payload with
  | .struct offset h =>
    [.function { name, owner := d.name, extra := .none, result := some (.struct (m.nameOf h))
                 body := [.returnRead (m.nameOf h) offset] }]
  | .unsupported _ reason => [.omitted name reason]
  | .empty | .missing => []

def variantWrite (m : Module) (d : TypeDef) (v : Variant) : List Item :=
  let name := tagName d v ++ "_write"
  match v.payload with
  | .empty =>
    [.function { name, owner := d.name, extra := .none, result := none
                 body := [.storeTag (tagName d v)] }]
  | .struct offset h =>
    [.function { name, owner := d.name, extra := .struct (m.nameOf h), result := none
                 body := [.storeTag (tagName d v), .write (m.nameOf h) offset .whole] }]
  | .unsupported _ reason => [.omitted name reason]
  | .missing => []

def declarations (m : Module) (d : TypeDef) : List Item :=
  (match d.body with
    | .struct fields => [.struct d.name (fields.map fun f => (f.name, memberType m f.ty))]
    | .union variants =>
      variants.zipIdx.map fun (v, tag) => .constant (tagName d v) (UInt32.ofNat tag)
    | .missing => []) ++
  [.constant (d.name ++ "_size") d.size, .blank, .function (indexFunction d)]

def accessors (m : Module) (maskUnsigned : Bool) (d : TypeDef) : List Item :=
  match d.body with
  | .struct fields =>
    .function (readFunction m d fields) ::
      if m.writable then [.function (writeFunction m maskUnsigned d fields)] else []
  | .union variants =>
    .function (tagFunction d) :: variants.flatMap (variantRead m d) ++
      if m.writable then variants.flatMap (variantWrite m d) else []
  | .missing => []

def headerItems (header : String) : List Item :=
  let text := if header = "" then Options.defaultHeader else header
  (text.toList.splitOn '\n').map (fun line => .comment (String.ofList line)) ++ [.blank]

def bufferName (m : Module) (o : Options) : String :=
  if o.bufferName = "" then m.name else o.bufferName

/-- All handles come first, so that structs can refer to each other in any order; then the
declarations and then the accessors of each definition, in the order of the module. -/
def program (m : Module) (o : Options) : Program :=
  { buffer := bufferName m o
    items :=
      headerItems o.header ++
      (match o.binding with
        | some b => [.buffer b m.writable, .blank]
        | none => []) ++
      m.defs.map (fun d => .handle d.name) ++
      m.defs.flatMap (declarations m) ++
      m.defs.flatMap (accessors m o.maskUnsigned) }

end WordLayout.Shader
