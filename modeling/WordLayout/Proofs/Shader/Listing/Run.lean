import Mathlib
import WordLayout.Word
import WordLayout.Proofs.Shader.Value
import WordLayout.Proofs.Shader.Listing.Syntax

/-!
Running the functions that a text declares on a buffer of words. Types, casts and constructors mean
what the language of the text says. A run ends without a result where the text asks for something
that the language does not allow: a name that is not declared or is declared again, a value of
another type, a shift by 32 or more, a word outside the buffer.
-/

namespace WordLayout.Shader.Listing

def builtinTypes (l : Language) : List (String × TypeName) :=
  match l with
  | .glsl =>
    [("uint", .scalar .u32), ("int", .scalar .i32), ("float", .scalar .f32),
      ("uvec2", .vector .u32 2), ("uvec3", .vector .u32 3), ("uvec4", .vector .u32 4),
      ("ivec2", .vector .i32 2), ("ivec3", .vector .i32 3), ("ivec4", .vector .i32 4),
      ("vec2", .vector .f32 2), ("vec3", .vector .f32 3), ("vec4", .vector .f32 4)]
  | .hlsl =>
    [("uint", .scalar .u32), ("int", .scalar .i32), ("float", .scalar .f32),
      ("uint2", .vector .u32 2), ("uint3", .vector .u32 3), ("uint4", .vector .u32 4),
      ("int2", .vector .i32 2), ("int3", .vector .i32 3), ("int4", .vector .i32 4),
      ("float2", .vector .f32 2), ("float3", .vector .f32 3), ("float4", .vector .f32 4)]
  | .wgsl =>
    [("u32", .scalar .u32), ("i32", .scalar .i32), ("f32", .scalar .f32),
      ("vec2<u32>", .vector .u32 2), ("vec3<u32>", .vector .u32 3), ("vec4<u32>", .vector .u32 4),
      ("vec2<i32>", .vector .i32 2), ("vec3<i32>", .vector .i32 3), ("vec4<i32>", .vector .i32 4),
      ("vec2<f32>", .vector .f32 2), ("vec3<f32>", .vector .f32 3), ("vec4<f32>", .vector .f32 4)]

def typeNamed (l : Language) (name : String) : TypeName :=
  ((builtinTypes l).lookup name).getD (.struct name)

section casts

def toUint : Value → Option Value
  | .uint a | .int a => some (.uint a)
  | _ => none

def toInt : Value → Option Value
  | .uint a | .int a => some (.int a)
  | _ => none

/-- Of a number that is no float the result would be a rounded float, which is not in use. -/
def toFloat : Value → Option Value
  | .float a => some (.float a)
  | _ => none

def floatOfBits : Value → Option Value
  | .uint a => some (.float a)
  | _ => none

def bitsOfFloat : Value → Option Value
  | .float a => some (.uint a)
  | _ => none

def casts (l : Language) : List (String × (Value → Option Value)) :=
  match l with
  | .glsl =>
    [("uint", toUint), ("int", toInt), ("float", toFloat), ("uintBitsToFloat", floatOfBits),
      ("floatBitsToUint", bitsOfFloat)]
  | .hlsl =>
    [("uint", toUint), ("int", toInt), ("float", toFloat), ("asfloat", floatOfBits),
      ("asuint", bitsOfFloat)]
  | .wgsl =>
    [("u32", toUint), ("i32", toInt), ("f32", toFloat), ("bitcast<f32>", floatOfBits),
      ("bitcast<u32>", bitsOfFloat)]

end casts

def Operator.eval : Operator → Value → Value → Option Value
  | .add, .uint a, .uint b => some (.uint (a + b))
  | .mul, .uint a, .uint b => some (.uint (a * b))
  | .and, .uint a, .uint b => some (.uint (a &&& b))
  | .or, .uint a, .uint b => some (.uint (a ||| b))
  | .shiftLeft, .uint a, .uint n => if n < 32 then some (.uint (a <<< n)) else none
  | .shiftRight, .uint a, .uint n => if n < 32 then some (.uint (a >>> n)) else none
  | .shiftRight, .int a, .uint n =>
    if n < 32 then some (.int (Word.shiftRightSigned a n.toNat)) else none
  | _, _, _ => none

inductive Variable
  | plain (v : Value)
  | record (s : Local)

namespace Variable

def of : Value → Variable
  | .struct type members => .record ⟨type, members.map fun q => (q.1, some q.2)⟩
  | v => .plain v

def value? : Variable → Option Value
  | .plain v => some v
  | .record s => s.value?

def member? : Variable → String → Option Value
  | .plain v, x => v.member? x
  | .record s, x => s.get? x

end Variable

abbrev Env := String → Option Variable

abbrev Call := String → List Value → Array UInt32 → Option (Array UInt32 × Option Value)

def construct (l : Language) (name : String) (members : List (String × String))
    (args : List Value) : Option Value :=
  if members.length = args.length ∧
      (members.zip args).all fun p => (typeNamed l p.1.2).admits p.2 then
    some (.struct name ((members.map (·.1)).zip args))
  else none

section runs

variable (l : Language) (file : File) (call : Call)

def applyTo (f : String) (args : List Value) (words : Array UInt32) :
    Option (Array UInt32 × Value) :=
  match (casts l).lookup f, typeNamed l f, args with
  | some cast, _, [v] => (cast v).map (words, ·)
  | some _, _, _ => none
  | none, .struct name, args =>
    match if l = .hlsl then none else file.structs.lookup name with
    | some members => (construct l name members args).map (words, ·)
    | none =>
      match call name args words with
      | some (words, some v) => some (words, v)
      | _ => none
  | none, type, args => (type.construct args).map (words, ·)

mutual

def Term.eval (env : Env) : Term → Array UInt32 → Option (Array UInt32 × Value)
  | .literal n, words => some (words, .uint n)
  | .name x, words =>
    match env x with
    | some v => v.value?.map (words, ·)
    | none => (file.constants.lookup x).map fun n => (words, .uint n)
  | .member (.name x) y, words => do some (words, ← (← env x).member? y)
  | .member t y, words => do
    let (words, v) ← t.eval env words
    some (words, ← v.member? y)
  | .element (.name b) i, words =>
    if b = file.buffer ∧ (env b).isNone then
      match i.eval env words with
      | some (words, .uint i) => words[i.toNat]?.map fun w => (words, .uint w)
      | _ => none
    else none
  | .element _ _, _ => none
  | .apply f args, words => do
    let (words, vs) ← evalAll env args words
    applyTo l file call f vs words
  | .binary op a b, words => do
    let (words, x) ← a.eval env words
    let (words, y) ← b.eval env words
    (op.eval x y).map (words, ·)

def evalAll (env : Env) : List Term → Array UInt32 → Option (Array UInt32 × List Value)
  | [], words => some (words, [])
  | t :: ts, words => do
    let (words, v) ← t.eval env words
    let (words, vs) ← evalAll env ts words
    some (words, v :: vs)

end

inductive Outcome
  | next (env : Env) (words : Array UInt32)
  | returned (v : Value) (words : Array UInt32)

def Statement.exec (env : Env) (words : Array UInt32) : Statement → Option Outcome
  | .define x type value => do
    let (words, v) ← value.eval l file call env words
    if (env x).isNone ∧ type.all (fun t => (typeNamed l t).admits v) then
      some (.next (Function.update env x (some (.of v))) words)
    else none
  | .declare x type => do
    let members := (← file.structs.lookup type).map fun q => (q.1, none)
    if (env x).isNone then
      some (.next (Function.update env x (some (.record ⟨type, members⟩))) words)
    else none
  | .assign (.member (.name x) y) value =>
    match env x with
    | some (.record s) => do
      let type ← (← file.structs.lookup s.type).lookup y
      let (words, v) ← value.eval l file call env words
      if (typeNamed l type).admits v then
        some (.next (Function.update env x (some (.record (s.set y v)))) words)
      else none
    | _ => none
  | .assign (.element (.name b) i) value =>
    if b = file.buffer ∧ (env b).isNone ∧ file.writable then do
      let (words, x) ← value.eval l file call env words
      match ← i.eval l file call env words, x with
      | (words, .uint i), .uint w => (storeAt words i w).map (.next env)
      | _, _ => none
    else none
  | .run (.apply f args) => do
    let (words, vs) ← evalAll l file call env args words
    match ← call f vs words with
    | (words, none) => some (.next env words)
    | (_, some _) => none
  | .finish t => do
    let (words, v) ← t.eval l file call env words
    some (.returned v words)
  | _ => none

def execAll : List Statement → Env → Array UInt32 → Option (Array UInt32 × Option Value)
  | [], _, words => some (words, none)
  | s :: rest, env, words =>
    match s.exec l file call env words with
    | some (.next env words) => execAll rest env words
    | some (.returned v words) => some (words, some v)
    | none => none

namespace Routine

def enter (r : Routine) (args : List Value) : Option Env :=
  if r.params.length = args.length ∧
      (r.params.zip args).all fun p => (typeNamed l p.1.2).admits p.2 then
    some fun x => (((r.params.map (·.1)).zip args).lookup x).map .of
  else none

def returns (r : Routine) : Option Value → Bool
  | none => r.result = ""
  | some v => r.result ≠ "" && (typeNamed l r.result).admits v

def run (r : Routine) (args : List Value) (words : Array UInt32) :
    Option (Array UInt32 × Option Value) := do
  let (words, v) ← execAll l file call r.body (← r.enter l args) words
  if r.returns l v then some (words, v) else none

end Routine

end runs

namespace File

def call (l : Language) (file : File) : List Routine → Call
  | [], _, _, _ => none
  | r :: earlier, name, args, words =>
    if r.name = name then r.run l file (file.call l earlier) args words
    else file.call l earlier name args words

def run (l : Language) (file : File) : Call := file.call l file.routines.reverse

end File

end WordLayout.Shader.Listing
