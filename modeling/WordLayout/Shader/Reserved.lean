import WordLayout.Shader.Language
import WordLayout.Text.Case

namespace WordLayout.Shader.Reserved

def glslWords : List String :=
  ["void", "bool", "int", "uint", "float", "double", "vec2", "vec3", "vec4", "ivec2", "ivec3",
    "ivec4", "uvec2", "uvec3", "uvec4", "bvec2", "bvec3", "bvec4", "dvec2", "dvec3", "dvec4",
    "mat2", "mat3", "mat4", "mat2x2", "mat2x3", "mat2x4", "mat3x2", "mat3x3", "mat3x4", "mat4x2",
    "mat4x3", "mat4x4", "sampler", "sampler2D", "sampler3D", "samplerCube", "image2D", "image3D",
    "atomic_uint", "attribute", "const", "uniform", "varying", "buffer", "shared", "coherent",
    "volatile", "restrict", "readonly", "writeonly", "layout", "centroid", "flat", "smooth",
    "noperspective", "patch", "sample", "subroutine", "break", "continue", "do", "for", "while",
    "switch", "case", "default", "if", "else", "discard", "return", "in", "out", "inout", "true",
    "false", "invariant", "precise", "struct", "lowp", "mediump", "highp", "precision", "common",
    "partition", "active", "asm", "class", "union", "enum", "typedef", "template", "this",
    "resource", "goto", "inline", "noinline", "public", "static", "extern", "external",
    "interface", "long", "short", "half", "fixed", "unsigned", "superp", "input", "output",
    "filter", "sizeof", "cast", "namespace", "using", "main", "floatBitsToInt", "floatBitsToUint",
    "intBitsToFloat", "uintBitsToFloat", "bitfieldExtract", "bitfieldInsert", "bitCount",
    "findLSB", "findMSB", "packUnorm4x8", "unpackUnorm4x8", "packHalf2x16", "unpackHalf2x16",
    "min", "max", "clamp", "mix", "abs", "sign", "length", "atomicAdd", "atomicAnd", "atomicOr",
    "atomicExchange", "atomicCompSwap", "barrier", "memoryBarrier", "memoryBarrierBuffer"]

def hlslWords : List String :=
  ["AppendStructuredBuffer", "asm", "asm_fragment", "BlendState", "break", "Buffer",
    "ByteAddressBuffer", "case", "cbuffer", "centroid", "class", "column_major", "compile",
    "compile_fragment", "CompileShader", "const", "continue", "ComputeShader",
    "ConsumeStructuredBuffer", "default", "discard", "do", "else", "export", "extern", "false",
    "for", "fxgroup", "groupshared", "if", "in", "inline", "inout", "interface", "line", "lineadj",
    "linear", "matrix", "namespace", "nointerpolation", "noperspective", "NULL", "out",
    "packoffset", "pass", "point", "precise", "return", "register", "row_major", "RWBuffer",
    "RWByteAddressBuffer", "RWStructuredBuffer", "RWTexture2D", "sample", "sampler",
    "SamplerState", "shared", "snorm", "static", "string", "struct", "switch", "StructuredBuffer",
    "tbuffer", "technique", "texture", "Texture2D", "triangle", "true", "typedef", "uniform",
    "unorm", "unsigned", "vector", "void", "volatile", "while", "auto", "catch", "char",
    "const_cast", "delete", "dynamic_cast", "enum", "explicit", "friend", "goto", "long",
    "mutable", "new", "operator", "private", "protected", "public", "reinterpret_cast", "short",
    "signed", "sizeof", "static_cast", "template", "this", "throw", "try", "typename", "union",
    "using", "virtual", "alignas", "alignof", "constexpr", "decltype", "noexcept", "nullptr",
    "static_assert", "thread_local", "abs", "all", "any", "asfloat", "asint", "asuint", "clamp",
    "countbits", "firstbithigh", "firstbitlow", "f16tof32", "f32tof16", "length", "lerp", "max",
    "min", "reversebits", "saturate", "sign", "step", "InterlockedAdd", "InterlockedAnd",
    "InterlockedOr", "InterlockedExchange", "InterlockedCompareExchange", "DeviceMemoryBarrier",
    "GroupMemoryBarrier"]

def hlslFoldedWords : List String :=
  ["asm", "decl", "pass", "technique", "texture1d", "texture2d", "texture3d", "texturecube"]

def hlslBases : List String :=
  ["bool", "int", "uint", "dword", "half", "float", "double", "min10float", "min16float",
    "min12int", "min16int", "min16uint", "int16_t", "int32_t", "int64_t", "uint16_t", "uint32_t",
    "uint64_t", "float16_t", "float32_t", "float64_t"]

def hlslTypes (base : String) : List String :=
  let dims := ["1", "2", "3", "4"]
  base :: dims.flatMap fun r => (base ++ r) :: dims.map fun c => base ++ r ++ "x" ++ c

def wgslKeywords : List String :=
  ["alias", "break", "case", "const", "const_assert", "continue", "continuing", "default",
    "diagnostic", "discard", "else", "enable", "false", "fn", "for", "if", "let", "loop",
    "override", "requires", "return", "struct", "switch", "true", "var", "while", "bool", "f16",
    "f32", "i32", "u32", "vec2", "vec3", "vec4", "mat2x2", "mat2x3", "mat2x4", "mat3x2", "mat3x3",
    "mat3x4", "mat4x2", "mat4x3", "mat4x4", "array", "atomic", "ptr", "sampler",
    "sampler_comparison", "texture_1d", "texture_2d", "texture_2d_array", "texture_3d",
    "texture_cube", "texture_cube_array", "texture_multisampled_2d", "texture_storage_1d",
    "texture_storage_2d", "texture_storage_2d_array", "texture_storage_3d", "texture_depth_2d",
    "texture_depth_2d_array", "texture_depth_cube", "texture_depth_cube_array",
    "texture_depth_multisampled_2d", "function", "private", "workgroup", "uniform", "storage",
    "read", "write", "read_write", "bitcast", "select", "arrayLength"]

def wgslWords : List String :=
  ["NULL", "Self", "abstract", "active", "alignas", "alignof", "as", "asm", "asm_fragment",
    "async", "attribute", "auto", "await", "become", "binding_array", "cast", "catch", "class",
    "co_await", "co_return", "co_yield", "coherent", "column_major", "common", "compile",
    "compile_fragment", "concept", "const_cast", "consteval", "constexpr", "constinit", "crate",
    "debugger", "decltype", "delete", "demote", "demote_to_helper", "do", "dynamic_cast", "enum",
    "explicit", "export", "extends", "extern", "external", "fallthrough", "filter", "final",
    "finally", "friend", "from", "fxgroup", "get", "goto", "groupshared", "highp", "impl",
    "implements", "import", "inline", "instanceof", "interface", "layout", "lowp", "macro",
    "macro_rules", "match", "mediump", "meta", "mod", "module", "move", "mut", "mutable",
    "namespace", "new", "nil", "noexcept", "noinline", "nointerpolation", "noperspective", "null",
    "nullptr", "of", "operator", "package", "packoffset", "partition", "pass", "patch",
    "pixelfragment", "precise", "precision", "premerge", "priv", "protected", "pub", "public",
    "readonly", "ref", "regardless", "register", "reinterpret_cast", "require", "resource",
    "restrict", "self", "set", "shared", "sizeof", "smooth", "snorm", "static", "static_assert",
    "static_cast", "std", "subroutine", "super", "target", "template", "this", "thread_local",
    "throw", "trait", "try", "type", "typedef", "typeid", "typename", "typeof", "union", "unless",
    "unorm", "unsafe", "unsized", "use", "using", "varying", "virtual", "volatile", "wgsl",
    "where", "with", "writeonly", "yield"]

def startsWith (start s : String) : Bool := start.toList.isPrefixOf s.toList

def hasDoubleUnderscore : List Char → Bool
  | '_' :: '_' :: _ => true
  | _ :: cs => hasDoubleUnderscore cs
  | [] => false

end WordLayout.Shader.Reserved

namespace WordLayout.Shader

open Reserved in
def Language.isReserved (l : Language) (name : String) : Bool :=
  match l with
  | .glsl =>
    glslWords.contains name || startsWith "gl_" name || hasDoubleUnderscore name.toList
  | .hlsl =>
    hlslWords.contains name || (hlslBases.flatMap hlslTypes).contains name ||
      hlslFoldedWords.contains (Text.lower name) || startsWith "SV_" name
  | .wgsl =>
    wgslKeywords.contains name || wgslWords.contains name || startsWith "__" name || name == "_"

end WordLayout.Shader
