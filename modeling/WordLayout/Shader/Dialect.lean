import WordLayout.Scalar
import WordLayout.Shader.Code
import WordLayout.Shader.Language
import WordLayout.Text.Quoted

namespace WordLayout.Shader

structure Binding where
  group : UInt32
  binding : UInt32
  deriving DecidableEq, Inhabited

structure Typed where
  name : String
  type : String
  deriving DecidableEq, Inhabited

namespace Language

def scalarType (l : Language) (k : ScalarKind) : String :=
  match l with
  | .glsl | .hlsl => if k.isFloat then "float" else if k.isSigned then "int" else "uint"
  | .wgsl => if k.isFloat then "f32" else if k.isSigned then "i32" else "u32"

def vectorType (l : Language) (k : ScalarKind) (lanes : UInt8) : String :=
  match l with
  | .glsl =>
    (if k.isFloat then "" else if k.isSigned then "i" else "u") ++ "vec" ++ toString lanes.toNat
  | .hlsl => scalarType .hlsl k ++ toString lanes.toNat
  | .wgsl => "vec" ++ toString lanes.toNat ++ "<" ++ scalarType .wgsl k ++ ">"

def literalEnd : Language → String
  | .glsl | .hlsl => ""
  | .wgsl => "u"

def uint (l : Language) (n : UInt32) : String := toString n.toNat ++ l.literalEnd

def hex (l : Language) (n : UInt32) : String := "0x" ++ Text.hexDigits 1 n.toNat ++ l.literalEnd

def floatFromBits : Language → String → String
  | .glsl, x => "uintBitsToFloat(" ++ x ++ ")"
  | .hlsl, x => "asfloat(" ++ x ++ ")"
  | .wgsl, x => "bitcast<f32>(" ++ x ++ ")"

def floatToBits : Language → String → String
  | .glsl, x => "floatBitsToUint(" ++ x ++ ")"
  | .hlsl, x => "asuint(" ++ x ++ ")"
  | .wgsl, x => "bitcast<u32>(" ++ x ++ ")"

def intFromBits : Language → String → String
  | .glsl, x | .hlsl, x => "int(" ++ x ++ ")"
  | .wgsl, x => "i32(" ++ x ++ ")"

def intToBits : Language → String → String
  | .glsl, x | .hlsl, x => "uint(" ++ x ++ ")"
  | .wgsl, x => "u32(" ++ x ++ ")"

def handleMaker : Language → String → String
  | .hlsl, name => name ++ "Ref_new"
  | .glsl, name | .wgsl, name => name ++ "Ref"

def makeHandle (l : Language) (name offset : String) : String :=
  l.handleMaker name ++ "(" ++ offset ++ ")"

def handleParam : Language → String
  | .glsl | .hlsl => "ref"
  | .wgsl => "handle"

def extraNames : Language → String → List String
  | .hlsl, name => [name ++ "Ref_new"]
  | .glsl, _ | .wgsl, _ => []

def extraLocals : Language → List String
  | .hlsl => ["offset", "r"]
  | .glsl | .wgsl => []

def letLine (l : Language) (name type value : String) : String :=
  match l with
  | .glsl | .hlsl => type ++ " " ++ name ++ " = " ++ value ++ ";"
  | .wgsl => "let " ++ name ++ " = " ++ value ++ ";"

def varLine (l : Language) (name type : String) : String :=
  match l with
  | .glsl => type ++ " " ++ name ++ ";"
  | .hlsl => type ++ " " ++ name ++ " = (" ++ type ++ ")0;"
  | .wgsl => "var " ++ name ++ ": " ++ type ++ ";"

def functionLine (l : Language) (name : String) (params : List Typed) (result : String) :
    String :=
  match l with
  | .glsl | .hlsl =>
    (if result = "" then "void" else result) ++ " " ++ name ++ "(" ++
      ", ".intercalate (params.map fun p => p.type ++ " " ++ p.name) ++ ") \x7b"
  | .wgsl =>
    "fn " ++ name ++ "(" ++ ", ".intercalate (params.map fun p => p.name ++ ": " ++ p.type) ++
      ")" ++ (if result = "" then "" else " -> " ++ result) ++ " \x7b"

def declareBuffer (l : Language) (c : Code) (name : String) (b : Binding) (writable : Bool) :
    Code :=
  let group := toString b.group.toNat
  let binding := toString b.binding.toNat
  match l with
  | .glsl =>
    c.block
      ("layout(set = " ++ group ++ ", binding = " ++ binding ++ ") " ++
        (if writable then "" else "readonly ") ++ "buffer " ++ name ++ "Buf \x7b")
      ["uint " ++ name ++ "[];"] "\x7d;"
  | .hlsl =>
    c.line <|
      if writable then
        "RWStructuredBuffer<uint> " ++ name ++ " : register(u" ++ binding ++ ", space" ++ group ++
          ");"
      else
        "StructuredBuffer<uint> " ++ name ++ " : register(t" ++ binding ++ ", space" ++ group ++
          ");"
  | .wgsl =>
    c.line
      ("@group(" ++ group ++ ") @binding(" ++ binding ++ ") var<storage, " ++
        (if writable then "read_write" else "read") ++ "> " ++ name ++ ": array<u32>;")

def declareStruct (l : Language) (c : Code) (name : String) (members : List Typed) : Code :=
  match l with
  | .glsl | .hlsl =>
    (c.block ("struct " ++ name ++ " \x7b") (members.map fun m => m.type ++ " " ++ m.name ++ ";")
      "\x7d;").blank
  | .wgsl =>
    (c.block ("struct " ++ name ++ " \x7b") (members.map fun m => m.name ++ ": " ++ m.type ++ ",")
      "\x7d").blank

def declareHandle (l : Language) (c : Code) (name : String) : Code :=
  let c := l.declareStruct c (name ++ "Ref") [⟨"offset", l.scalarType .u32⟩]
  match l with
  | .hlsl =>
    (c.block (l.functionLine (name ++ "Ref_new") [⟨"offset", "uint"⟩] (name ++ "Ref"))
      [name ++ "Ref r;", "r.offset = offset;", "return r;"] "\x7d").blank
  | .glsl | .wgsl => c

def declareConstant (l : Language) (c : Code) (name : String) (value : UInt32) : Code :=
  match l with
  | .glsl | .hlsl => c.line ("#define " ++ name ++ " " ++ toString value.toNat)
  | .wgsl => c.line ("const " ++ name ++ ": u32 = " ++ l.uint value ++ ";")

end Language

end WordLayout.Shader
