import WordLayout.Text.Number
import WordLayout.Yaml.Timestamp

namespace WordLayout.Yaml

inductive Fraction
  | notANumber
  | infinite
  | finite (negative : Bool) (whole : Nat)
  deriving DecidableEq, Inhabited

inductive Scalar
  | null
  | bool (b : Bool)
  | int (n : Int)
  | float (f : Fraction)
  | timestamp
  | text (s : String)
  deriving DecidableEq, Inhabited

namespace Tag

def null : String := "!!null"

def bool : String := "!!bool"

def str : String := "!!str"

def int : String := "!!int"

def float : String := "!!float"

def timestamp : String := "!!timestamp"

def binary : String := "!!binary"

def merge : String := "!!merge"

def seq : String := "!!seq"

def map : String := "!!map"

def longStart : String := "tag:yaml.org,2002:"

def short (tag : String) : String :=
  if longStart.toList.isPrefixOf tag.toList then
    "!!" ++ String.ofList (tag.toList.drop longStart.length)
  else tag

end Tag

namespace Scalar

def tag : Scalar → String
  | .null => Tag.null
  | .bool _ => Tag.bool
  | .int _ => Tag.int
  | .float _ => Tag.float
  | .timestamp => Tag.timestamp
  | .text _ => Tag.str

def ofWord? (s : String) : Option Scalar :=
  match s with
  | "" | "~" | "null" | "Null" | "NULL" => some .null
  | "true" | "True" | "TRUE" => some (.bool true)
  | "false" | "False" | "FALSE" => some (.bool false)
  | ".nan" | ".NaN" | ".NAN" => some (.float .notANumber)
  | ".inf" | ".Inf" | ".INF" | "+.inf" | "+.Inf" | "+.INF" | "-.inf" | "-.Inf" | "-.INF" =>
    some (.float .infinite)
  | _ => none

def ofDecimal? (cs : List Char) : Option Scalar := do
  let (negative, digits) := Text.splitSign cs
  let whole ← (← Text.readDecimal? digits).whole?
  some (.float (.finite negative whole))

def readBase (base : Nat) (cs : List Char) : Option Nat :=
  if cs.isEmpty then none else (Text.readDigits base 0xffffffffffffffff cs).toOption

def readMarked (cs : List Char) : Option Nat := (Text.readUnsigned 64 (String.ofList cs)).toOption

def ofMark? (mark : Char) (base : Nat) (cs : List Char) : Option Int :=
  match cs with
  | '0' :: m :: rest =>
    if m == mark then
      (Text.readSigned? (readBase base) rest).or ((readBase base rest).map Int.ofNat)
    else none
  | '-' :: '0' :: m :: rest =>
    if m == mark then Text.readSigned? (readBase base) ('-' :: rest) else none
  | _ => none

def ofNumber? (cs : List Char) : Option Scalar :=
  match Text.readSigned? readMarked cs with
  | some n => some (.int n)
  | none =>
    match readMarked cs with
    | some n => some (.int n)
    | none =>
      match ofDecimal? cs with
      | some f => some f
      | none => ((ofMark? 'b' 2 cs).or (ofMark? 'o' 8 cs)).map .int

def plain (timestamps : Bool) (s : String) : Scalar :=
  match ofWord? s with
  | some v => v
  | none =>
    let cs := s.toList
    match cs.headD ' ' with
    | '.' =>
      if Text.underscoresSeparate cs then
        (ofDecimal? (cs.filter (· != '_'))).getD (.text s)
      else .text s
    | c =>
      if Text.isAsciiDigit c || c == '+' || c == '-' then
        if timestamps && Timestamp.isTimestamp s then .timestamp
        else (ofNumber? (cs.filter (· != '_'))).getD (.text s)
      else .text s

def isResolved (tag : String) : Bool :=
  ["", Tag.str, Tag.bool, Tag.int, Tag.float, Tag.null, Tag.timestamp].contains tag

def resolve (tag s : String) : Except String (String × Scalar) :=
  if !isResolved tag then .ok (tag, .text s)
  else
    let v := if tag = Tag.str then .text s else plain (tag = "" || tag = Tag.timestamp) s
    if tag = "" ∨ tag = v.tag ∨ tag = Tag.str then .ok (v.tag, v)
    else
      match v with
      | .int n =>
        if tag = Tag.float ∧ n < 0x8000000000000000 then
          .ok (Tag.float, .float (.finite (n < 0) n.natAbs))
        else .error v.tag
      | _ => .error v.tag

def plainTag (s : String) : String := if s = "<<" then Tag.merge else (plain true s).tag

end Scalar

end WordLayout.Yaml
