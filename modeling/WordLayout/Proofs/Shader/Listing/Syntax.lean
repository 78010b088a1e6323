import Mathlib
import WordLayout.Shader.Reserved
import WordLayout.Text.Number

/-!
Listings: texts of accessors, read by the rules of their language. A text is cut into lines and a
line into tokens; names that a `#define` line has defined before are replaced; what is left is read
as declarations and functions. Every line holds one declaration, statement, opening or closing. A
text that is not read here has no meaning here, even if the language gives it one.
-/

namespace WordLayout.Shader.Listing

inductive Operator
  | add
  | mul
  | shiftLeft
  | shiftRight
  | and
  | or
  deriving DecidableEq

inductive Token
  | word (s : String)
  | operator (op : Operator)
  | arrow
  | mark (c : Char)
  deriving DecidableEq

def isWordChar (c : Char) : Bool := Text.isIdentifierStart c || Text.isAsciiDigit c

def symbol : Char → Token
  | '+' => .operator .add
  | '*' => .operator .mul
  | '&' => .operator .and
  | '|' => .operator .or
  | c => .mark c

def endWord (w : List Char) (ts : List Token) : List Token :=
  if w.isEmpty then ts else .word (String.ofList w) :: ts

/-- The tokens of a line, after the characters of an unfinished word. Two slashes start a remark. -/
def tokensFrom : List Char → List Char → List Token
  | w, [] => endWord w []
  | w, '/' :: '/' :: _ => endWord w []
  | w, '<' :: '<' :: cs => endWord w (.operator .shiftLeft :: tokensFrom [] cs)
  | w, '>' :: '>' :: cs => endWord w (.operator .shiftRight :: tokensFrom [] cs)
  | w, '-' :: '>' :: cs => endWord w (.arrow :: tokensFrom [] cs)
  | w, c :: cs =>
    if isWordChar c then tokensFrom (w ++ [c]) cs
    else if c = ' ' then endWord w (tokensFrom [] cs)
    else endWord w (symbol c :: tokensFrom [] cs)

def tokens (line : List Char) : List Token := tokensFrom [] line

inductive Term
  | literal (n : UInt32)
  | name (x : String)
  | member (t : Term) (x : String)
  | element (t i : Term)
  | apply (f : String) (args : List Term)
  | binary (op : Operator) (a b : Term)
  deriving Inhabited

section literals

/-- A number of at most 32 bits. A decimal one has no needless zero before it; it would be octal. -/
def number? : List Char → Option Nat
  | '0' :: 'x' :: c :: cs => (Text.readDigits 16 (2 ^ 32 - 1) (c :: cs)).toOption
  | cs =>
    match Text.readDigits 10 (2 ^ 32 - 1) cs with
    | .ok n => if Nat.toDigits 10 n = cs then some n else none
    | .error _ => none

/-- The bits of a number. Without a suffix it is signed, and converts where it meets a word. -/
def literal? (l : Language) (w : String) : Option UInt32 :=
  let cs := w.toList
  (match l with
    | .glsl | .hlsl => number? cs
    | .wgsl => if cs.getLast? = some 'u' then number? cs.dropLast else none).map UInt32.ofNat

end literals

section terms

abbrev Chain := List (Term × Operator)

def Operator.level : Operator → Nat
  | .mul => 0
  | .add => 1
  | .shiftLeft | .shiftRight => 2
  | .and => 3
  | .or => 4

def joinLevel (level : Nat) : Term → List (Operator × Term) → Term × List (Operator × Term)
  | a, [] => (a, [])
  | a, (op, b) :: rest =>
    if op.level = level then joinLevel level (.binary op a b) rest
    else ((a, (op, (joinLevel level b rest).1) :: (joinLevel level b rest).2))

def leading : Chain → Term → Term × List (Operator × Term)
  | [], t => (t, [])
  | (a, op) :: chain, t => (a, (op, (leading chain t).1) :: (leading chain t).2)

def resolve (chain : Chain) (last : Term) : Term :=
  ((List.range 5).foldl (fun p level => joinLevel level p.1 p.2) (leading chain last)).1

inductive Bracket
  | group
  | call (f : String) (args : List Term)
  | index (t : Term)

abbrev Open := Bracket × Chain

def atom? (l : Language) (w : String) : Option Term :=
  if Text.isIdentifier w then some (.name w) else (literal? l w).map .literal

def readFrom (l : Language) :
    List Open → Chain → Option Term → List Token → Option (Term × List Token)
  | outer, chain, none, .word w :: ts =>
    match atom? l w with
    | some t => readFrom l outer chain (some t) ts
    | none => none
  | outer, chain, none, .mark '(' :: ts => readFrom l ((.group, chain) :: outer) [] none ts
  | outer, chain, some t, .operator op :: ts => readFrom l outer (chain ++ [(t, op)]) none ts
  | outer, chain, some t, .mark '.' :: .word x :: ts =>
    if Text.isIdentifier x then readFrom l outer chain (some (.member t x)) ts else none
  | outer, chain, some (.name f), .mark '<' :: .word type :: .mark '>' :: ts =>
    if l = .wgsl then readFrom l outer chain (some (.name (f ++ "<" ++ type ++ ">"))) ts else none
  | outer, chain, some (.name f), .mark '(' :: ts =>
    readFrom l ((.call f [], chain) :: outer) [] none ts
  | outer, chain, some t, .mark '[' :: ts => readFrom l ((.index t, chain) :: outer) [] none ts
  | (.group, before) :: outer, chain, some t, .mark ')' :: ts =>
    readFrom l outer before (some (resolve chain t)) ts
  | (.call f args, before) :: outer, chain, some t, .mark ',' :: ts =>
    readFrom l ((.call f (args ++ [resolve chain t]), before) :: outer) [] none ts
  | (.call f args, before) :: outer, chain, some t, .mark ')' :: ts =>
    readFrom l outer before (some (.apply f (args ++ [resolve chain t]))) ts
  | (.index a, before) :: outer, chain, some t, .mark ']' :: ts =>
    readFrom l outer before (some (.element a (resolve chain t))) ts
  | [], chain, some t, .mark '=' :: ts => some (resolve chain t, .mark '=' :: ts)
  | [], chain, some t, .mark ';' :: ts => some (resolve chain t, .mark ';' :: ts)
  | _, _, _, _ => none

def readTerm (l : Language) (ts : List Token) : Option (Term × List Token) :=
  readFrom l [] [] none ts

def readLast (l : Language) (ts : List Token) : Option Term :=
  match readTerm l ts with
  | some (t, [.mark ';']) => some t
  | _ => none

end terms

inductive Statement
  | define (x : String) (type : Option String) (value : Term)
  | declare (x type : String)
  | assign (target value : Term)
  | run (t : Term)
  | finish (t : Term)
  deriving Inhabited

def readLocal (l : Language) (first x : String) (rest : List Token) : Option Statement :=
  if Text.isIdentifier x then
    match l, rest with
    | .wgsl, .mark '=' :: ts =>
      if first = "let" then (readLast l ts).map (.define x none) else none
    | .wgsl, [.mark ':', .word type, .mark ';'] =>
      if first = "var" then some (.declare x type) else none
    | .glsl, [.mark ';'] | .hlsl, [.mark ';'] => some (.declare x first)
    | .glsl, .mark '=' :: ts => (readLast l ts).map (.define x (some first))
    | .hlsl, .mark '=' :: ts =>
      if ts = [.mark '(', .word first, .mark ')', .word "0", .mark ';'] then some (.declare x first)
      else (readLast l ts).map (.define x (some first))
    | _, _ => none
  else none

def readEffect (l : Language) (ts : List Token) : Option Statement :=
  match readTerm l ts with
  | some (t, [.mark ';']) => some (.run t)
  | some (t, .mark '=' :: ts) => (readLast l ts).map (.assign t)
  | _ => none

def readStatement (l : Language) : List Token → Option Statement
  | .word first :: ts =>
    if first = "return" then (readLast l ts).map .finish
    else
      match ts with
      | .word x :: rest => readLocal l first x rest
      | ts => readEffect l (.word first :: ts)
  | _ => none

structure Routine where
  name : String
  params : List (String × String)
  result : String
  body : List Statement
  deriving Inhabited

structure File where
  buffer : String
  writable : Bool := true
  names : List String := []
  structs : List (String × List (String × String)) := []
  constants : List (String × UInt32) := []
  routines : List Routine := []
  deriving Inhabited

def File.declare (file : File) (x : String) : File := { file with names := file.names ++ [x] }

inductive Part
  | outside
  | members (name : String) (done : List (String × String))
  | block (writable : Bool)
  | body (r : Routine)
  deriving Inhabited

def readParams (l : Language) : List Token → Option (List (String × String) × List Token)
  | .word a :: .word b :: .mark c :: ts =>
    if l = .wgsl then none
    else if c = ',' then (readParams l ts).map fun p => ((b, a) :: p.1, p.2)
    else if c = ')' then some ([(b, a)], ts)
    else none
  | .word a :: .mark ':' :: .word b :: .mark c :: ts =>
    if l ≠ .wgsl then none
    else if c = ',' then (readParams l ts).map fun p => ((a, b) :: p.1, p.2)
    else if c = ')' then some ([(a, b)], ts)
    else none
  | _ => none

def readHeader (l : Language) (first name : String) (ts : List Token) : Option Routine :=
  match l, readParams l ts with
  | .wgsl, some (params, [.mark '{']) =>
    if first = "fn" then some ⟨name, params, "", []⟩ else none
  | .wgsl, some (params, [.arrow, .word result, .mark '{']) =>
    if first = "fn" then some ⟨name, params, result, []⟩ else none
  | .glsl, some (params, [.mark '{']) | .hlsl, some (params, [.mark '{']) =>
    some ⟨name, params, if first = "void" then "" else first, []⟩
  | _, _ => none

def bufferLine? (l : Language) (ts : List Token) : Option (String × Bool) :=
  match l, ts with
  | .glsl, [.word "layout", .mark '(', .word "set", .mark '=', .word _, .mark ',',
      .word "binding", .mark '=', .word _, .mark ')', .word "buffer", .word block, .mark '{'] =>
    some (block, true)
  | .glsl, [.word "layout", .mark '(', .word "set", .mark '=', .word _, .mark ',',
      .word "binding", .mark '=', .word _, .mark ')', .word "readonly", .word "buffer",
      .word block, .mark '{'] => some (block, false)
  | .hlsl, [.word "RWStructuredBuffer", .mark '<', .word "uint", .mark '>', .word x, .mark ':',
      .word "register", .mark '(', .word _, .mark ',', .word _, .mark ')', .mark ';'] =>
    some (x, true)
  | .hlsl, [.word "StructuredBuffer", .mark '<', .word "uint", .mark '>', .word x, .mark ':',
      .word "register", .mark '(', .word _, .mark ',', .word _, .mark ')', .mark ';'] =>
    some (x, false)
  | .wgsl, [.mark '@', .word "group", .mark '(', .word _, .mark ')', .mark '@', .word "binding",
      .mark '(', .word _, .mark ')', .word "var", .mark '<', .word "storage", .mark ',',
      .word access, .mark '>', .word x, .mark ':', .word "array", .mark '<', .word "u32",
      .mark '>', .mark ';'] =>
    if access = "read_write" then some (x, true)
    else if access = "read" then some (x, false)
    else none
  | _, _ => none

def readOutside (l : Language) (file : File) (ts : List Token) : Option (File × Part) :=
  match bufferLine? l ts with
  | some (x, writable) =>
    if l = .glsl then some (file.declare x, .block writable)
    else if x = file.buffer then some ({ file.declare x with writable }, .outside)
    else none
  | none =>
    match l, ts with
    | _, [.word "struct", .word name, .mark '{'] => some (file.declare name, .members name [])
    | .wgsl, [.word "const", .word x, .mark ':', .word "u32", .mark '=', .word w, .mark ';'] =>
      (literal? l w).map fun n =>
        ({ file.declare x with constants := file.constants ++ [(x, n)] }, .outside)
    | _, .word first :: .word name :: .mark '(' :: ts =>
      (readHeader l first name ts).map fun r => (file.declare name, .body r)
    | _, _ => none

def member? (l : Language) (ts : List Token) : Option (String × String) :=
  match l, ts with
  | .glsl, [.word type, .word x, .mark ';'] | .hlsl, [.word type, .word x, .mark ';'] =>
    if Text.isIdentifier x then some (x, type) else none
  | .wgsl, [.word x, .mark ':', .word type, .mark ','] =>
    if Text.isIdentifier x then some (x, type) else none
  | .wgsl, [.word x, .mark ':', .word type, .mark '<', .word part, .mark '>', .mark ','] =>
    if Text.isIdentifier x then some (x, type ++ "<" ++ part ++ ">") else none
  | _, _ => none

def closing (l : Language) : List Token :=
  match l with
  | .glsl | .hlsl => [.mark '}', .mark ';']
  | .wgsl => [.mark '}']

def readPart (l : Language) (file : File) (part : Part) (ts : List Token) :
    Option (File × Part) :=
  match part with
  | .outside => readOutside l file ts
  | .members name done =>
    if ts = closing l then
      some ({ file with structs := file.structs ++ [(name, done)] }, .outside)
    else (member? l ts).map fun m => (file, .members name (done ++ [m]))
  | .block writable =>
    if ts = closing l then some ({ file with writable }, .outside)
    else if ts = [.word "uint", .word file.buffer, .mark '[', .mark ']', .mark ';'] then
      some (file.declare file.buffer, .block writable)
    else none
  | .body r =>
    if ts = [.mark '}'] then some ({ file with routines := file.routines ++ [r] }, .outside)
    else (readStatement l ts).map fun s => (file, .body { r with body := r.body ++ [s] })

abbrev Macros := List (String × String)

def replace (macros : Macros) : Token → Token
  | .word x => .word ((macros.lookup x).getD x)
  | t => t

structure State where
  macros : Macros := []
  file : File
  part : Part := .outside
  deriving Inhabited

def directive? (l : Language) (ts : List Token) : Option (String × String) :=
  match ts with
  | [.mark '#', .word "define", .word x, .word w] =>
    if l ≠ .wgsl ∧ Text.isIdentifier x ∧ (literal? l w).isSome then some (x, w) else none
  | _ => none

def readLine (l : Language) (st : State) (line : List Char) : Option State :=
  let ts := tokens line
  if ts = [] then some st
  else
    match directive? l ts with
    | some m => some { st with macros := st.macros ++ [m], file := st.file.declare m.1 }
    | none =>
      (readPart l st.file st.part (ts.map (replace st.macros))).map fun p =>
        { st with file := p.1, part := p.2 }

def isLineBreak (c : Char) : Bool :=
  c ∈ ['\n', '\r', '\x0b', '\x0c', '\u0085', '\u2028', '\u2029']

def readLines (l : Language) (st : State) (cs : List Char) : Option State :=
  (cs.splitOnP isLineBreak).foldlM (readLine l) st

def readFile (l : Language) (buffer text : String) : Option File :=
  match readLines l { file := { buffer } } text.toList with
  | some ⟨_, file, .outside⟩ => some file
  | _ => none

/-- No name is declared twice, and none is kept by the language. Declarations are read and run
whether their names are proper or not. -/
def File.Proper (l : Language) (file : File) : Prop :=
  file.names.Nodup ∧ ∀ x ∈ file.names, l.isReserved x = false

instance (l : Language) (file : File) : Decidable (file.Proper l) :=
  inferInstanceAs (Decidable (_ ∧ _))

end WordLayout.Shader.Listing
