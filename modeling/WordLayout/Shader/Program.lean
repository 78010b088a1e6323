import WordLayout.Module
import WordLayout.Shader.Dialect

/-!
Accessor programs: the declarations and functions that are emitted for a module, as a tree that is
the same for every language, and their text in one language.

An accessor gets a handle, whose member `offset` is the byte offset of a value in the buffer. Inside
a function, `ix` is the index of the value's first word, `raw0`, `raw1`, … are its loaded words, and
`s` is the decoded struct.
-/

namespace WordLayout.Shader

inductive TypeName
  | scalar (kind : ScalarKind)
  | vector (kind : ScalarKind) (lanes : UInt8)
  | struct (name : String)
  | handle (name : String)
  deriving DecidableEq, Inhabited

inductive Expr
  | raw (word : UInt32)
  | member (name : String) (lane : Option Nat)
  | offset (name : String)
  | mask (x : Expr) (bits : UInt32)
  | shiftLeft (x : Expr) (n : UInt32)
  /-- Arithmetic on a signed operand, logical on any other. -/
  | shiftRight (x : Expr) (n : UInt32)
  | group (x : Expr)
  | floatFromBits (x : Expr)
  | floatToBits (x : Expr)
  | intFromBits (x : Expr)
  | intToBits (x : Expr)
  deriving DecidableEq, Inhabited

inductive Source
  | scalar (x : Expr)
  | vector (type : TypeName) (lanes : List Expr)
  | nested (name : String) (distance : UInt32)
  | handle (name : String) (x : Expr)
  deriving DecidableEq, Inhabited

inductive Argument
  | whole
  | member (name : String)
  deriving DecidableEq, Inhabited

inductive Stmt
  | base
  | load (word : UInt32)
  | declare (name : String)
  | assign (member : String) (source : Source)
  | returnStruct
  | store (word : UInt32) (parts : List Expr)
  | write (name : String) (distance : UInt32) (argument : Argument)
  | returnRead (name : String) (distance : UInt32)
  | returnTag
  | storeTag (constant : String)
  | returnElement (name : String)
  deriving DecidableEq, Inhabited

inductive Extra
  | none
  | index
  | struct (name : String)
  deriving DecidableEq, Inhabited

structure Function where
  name : String
  owner : String
  extra : Extra
  result : Option TypeName
  body : List Stmt
  deriving DecidableEq, Inhabited

inductive Item
  | comment (text : String)
  | blank
  | buffer (binding : Binding) (writable : Bool)
  | handle (name : String)
  | struct (name : String) (members : List (String × TypeName))
  | constant (name : String) (value : UInt32)
  | function (f : Function)
  | omitted (name reason : String)
  deriving DecidableEq, Inhabited

structure Program where
  buffer : String
  items : List Item
  deriving DecidableEq, Inhabited

namespace Item

def function? : Item → Option Function
  | .function f => some f
  | _ => none

end Item

namespace Program

def functions (p : Program) : List Function := p.items.filterMap Item.function?

end Program

def rawName (word : UInt32) : String := "raw" ++ toString word.toNat

def laneName (lane : Nat) : String := ["x", "y", "z", "w"].getD lane ""

namespace Language

def typeName (l : Language) : TypeName → String
  | .scalar k => l.scalarType k
  | .vector k lanes => l.vectorType k lanes
  | .struct name => name
  | .handle name => name ++ "Ref"

def uintType (l : Language) : String := l.scalarType .u32

def expr (l : Language) : Expr → String
  | .raw word => rawName word
  | .member name none => "s." ++ name
  | .member name (some lane) => "s." ++ name ++ "." ++ laneName lane
  | .offset name => "s." ++ name ++ ".offset"
  | .mask x bits => l.expr x ++ " & " ++ l.hex bits
  | .shiftLeft x n => l.expr x ++ " << " ++ l.uint n
  | .shiftRight x n => l.expr x ++ " >> " ++ l.uint n
  | .group x => "(" ++ l.expr x ++ ")"
  | .floatFromBits x => l.floatFromBits (l.expr x)
  | .floatToBits x => l.floatToBits (l.expr x)
  | .intFromBits x => l.intFromBits (l.expr x)
  | .intToBits x => l.intToBits (l.expr x)

def handleAt (l : Language) (name : String) (distance : UInt32) : String :=
  l.makeHandle name <|
    if distance = 0 then l.handleParam ++ ".offset"
    else l.handleParam ++ ".offset + " ++ l.uint distance

def source (l : Language) : Source → String
  | .scalar x => l.expr x
  | .vector type lanes => l.typeName type ++ "(" ++ ", ".intercalate (lanes.map l.expr) ++ ")"
  | .nested name distance => name ++ "_read(" ++ l.handleAt name distance ++ ")"
  | .handle name x => l.makeHandle name (l.expr x)

def firstWord (l : Language) : String := l.handleParam ++ ".offset >> " ++ l.uint 2

def word (l : Language) (buffer : String) (i : UInt32) : String :=
  buffer ++ "[ix + " ++ l.uint i ++ "]"

def tagWord (l : Language) (buffer : String) : String := buffer ++ "[" ++ l.firstWord ++ "]"

def argument : Argument → String
  | .whole => "s"
  | .member name => "s." ++ name

def stmt (l : Language) (buffer : String) : Stmt → String
  | .base => l.letLine "ix" l.uintType l.firstWord
  | .load w => l.letLine (rawName w) l.uintType (l.word buffer w)
  | .declare name => l.varLine "s" name
  | .assign member source => "s." ++ member ++ " = " ++ l.source source ++ ";"
  | .returnStruct => "return s;"
  | .store w parts => l.word buffer w ++ " = " ++ " | ".intercalate (parts.map l.expr) ++ ";"
  | .write name distance a =>
    name ++ "_write(" ++ l.handleAt name distance ++ ", " ++ argument a ++ ");"
  | .returnRead name distance => "return " ++ name ++ "_read(" ++ l.handleAt name distance ++ ");"
  | .returnTag => "return " ++ l.tagWord buffer ++ ";"
  | .storeTag constant => l.tagWord buffer ++ " = " ++ constant ++ ";"
  | .returnElement name =>
    "return " ++ l.makeHandle name (l.handleParam ++ ".offset + index * " ++ name ++ "_size") ++
      ";"

def params (l : Language) (f : Function) : List Typed :=
  ⟨l.handleParam, f.owner ++ "Ref"⟩ ::
    match f.extra with
    | .none => []
    | .index => [⟨"index", l.uintType⟩]
    | .struct name => [⟨"s", name⟩]

def resultType (l : Language) (f : Function) : String := (f.result.map l.typeName).getD ""

def item (l : Language) (buffer : String) (c : Code) : Item → Code
  | .comment text => c.line ("// " ++ text)
  | .blank => c.blank
  | .buffer binding writable => l.declareBuffer c buffer binding writable
  | .handle name => l.declareHandle c name
  | .struct name members =>
    l.declareStruct c name (members.map fun (member, type) => ⟨member, l.typeName type⟩)
  | .constant name value => l.declareConstant c name value
  | .function f =>
    (c.block (l.functionLine f.name (l.params f) (l.resultType f)) (f.body.map (l.stmt buffer))
      "\x7d").blank
  | .omitted name reason => (c.line ("// " ++ name ++ " omitted: " ++ reason)).blank

end Language

def Program.render (p : Program) (l : Language) : String :=
  (p.items.foldl (l.item p.buffer) {}).text

end WordLayout.Shader
