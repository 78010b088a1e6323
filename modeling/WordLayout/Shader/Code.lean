namespace WordLayout.Shader

structure Code where
  text : String := ""
  depth : Nat := 0
  deriving DecidableEq, Inhabited

namespace Code

inductive Arg
  | text (s : String)
  | number (n : Int)
  deriving DecidableEq, Inhabited

def Arg.render : Arg → String
  | .text s => s
  | .number n => toString n

def fillChars : List Char → List Arg → List Char
  | '%' :: '%' :: cs, args => '%' :: fillChars cs args
  | '%' :: _ :: cs, arg :: args => arg.render.toList ++ fillChars cs args
  | c :: cs, args => c :: fillChars cs args
  | [], _ => []

def fill (pattern : String) (args : List Arg) : String :=
  if args.isEmpty then pattern else String.ofList (fillChars pattern.toList args)

def line (c : Code) (s : String) : Code :=
  { c with text := c.text ++ String.ofList (List.replicate (4 * c.depth) ' ') ++ s ++ "\n" }

def blank (c : Code) : Code := { c with text := c.text ++ "\n" }

def push (c : Code) : Code := { c with depth := c.depth + 1 }

def pop (c : Code) : Code := { c with depth := c.depth - 1 }

def lines (c : Code) (ss : List String) : Code := ss.foldl line c

def block (c : Code) (first : String) (body : List String) (last : String) : Code :=
  (((c.line first).push.lines body).pop).line last

end Code

end WordLayout.Shader
