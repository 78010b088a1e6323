import WordLayout.Text.Case
import WordLayout.Text.Quoted

namespace WordLayout.Shader

inductive Language
  | glsl
  | hlsl
  | wgsl
  deriving DecidableEq, Inhabited

namespace Language

def all : List Language := [.glsl, .hlsl, .wgsl]

def ofCode? (code : UInt8) : Option Language := all[code.toNat]?

def code : Language → UInt8
  | .glsl => 0
  | .hlsl => 1
  | .wgsl => 2

def name : Language → String
  | .glsl => "glsl"
  | .hlsl => "hlsl"
  | .wgsl => "wgsl"

def nameOfCode (code : UInt8) : String :=
  match ofCode? code with
  | some l => l.name
  | none => "language(" ++ toString code.toNat ++ ")"

def extensionOfCode (code : UInt8) : String := "." ++ nameOfCode code

def extension (l : Language) : String := "." ++ l.name

def ofName? (s : String) : Option Language := all.find? fun l => Text.equalFold s l.name

def unknownName (s : String) : String :=
  "unknown language " ++ Text.quoted s ++ " (want glsl, hlsl or wgsl)"

def unsupportedCode (code : UInt8) : String := "unsupported language " ++ nameOfCode code

theorem ofCode?_code (l : Language) : ofCode? l.code = some l := by
  cases l <;> rfl

end Language

end WordLayout.Shader
