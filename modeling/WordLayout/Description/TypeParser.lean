import WordLayout.Text.Blank
import WordLayout.Text.Identifier
import WordLayout.Text.Number
import WordLayout.Text.Quoted
import WordLayout.TypeExpr

namespace WordLayout

inductive TypeFault
  | missing
  | refTarget (name : String)
  | noElement (text : String)
  | laneCount (text : String)
  | malformed (text : String)
  | element (name : String)
  | notAType (text : String)
  deriving DecidableEq, Inhabited

def TypeFault.text : TypeFault → String
  | .missing => "missing type"
  | .refTarget name => "ref target " ++ Text.quoted name ++ " is not a type name"
  | .noElement text =>
    "vector type " ++ Text.quoted text ++ " needs an element type, e.g. vec2<f32>"
  | .laneCount text => "vector type " ++ Text.quoted text ++ " must have 1 to 4 lanes"
  | .malformed text => "malformed vector type " ++ Text.quoted text
  | .element name => "vector element " ++ Text.quoted name ++ " is not a scalar type"
  | .notAType text => "unknown type " ++ Text.quoted text

namespace TypeExpr

def after? (start cs : List Char) : Option (List Char) :=
  if start.isPrefixOf cs then some (cs.drop start.length) else none

def bracketed? (cs : List Char) : Option (List Char) :=
  match cs.getLast? with
  | some '>' => some (Text.trimChars cs.dropLast)
  | _ => none

def laneCount? (digits : List Char) : Option UInt8 :=
  if digits.isEmpty then none
  else
    match Text.readDigits 10 255 digits with
    | .ok n => if 1 ≤ n ∧ n ≤ 4 then some (UInt8.ofNat n) else none
    | .error _ => none

def isName (cs : List Char) : Bool := Text.isIdentifierChars cs

def parseRef (inner : List Char) : Except TypeFault TypeExpr :=
  if isName inner then .ok (.ref (String.ofList inner))
  else .error (.refTarget (String.ofList inner))

def parseVector (cs rest : List Char) : Except TypeFault TypeExpr :=
  let text := String.ofList cs
  if !rest.contains '<' then .error (.noElement text)
  else
    match laneCount? (rest.takeWhile (· != '<')) with
    | none => .error (.laneCount text)
    | some lanes =>
      match bracketed? ((rest.dropWhile (· != '<')).drop 1) with
      | none => .error (.malformed text)
      | some inner =>
        match ScalarKind.ofName? (String.ofList inner) with
        | some kind => .ok (.vector kind lanes)
        | none => .error (.element (String.ofList inner))

def parseChars (cs : List Char) : Except TypeFault TypeExpr :=
  if cs.isEmpty then .error .missing
  else
    match ScalarKind.ofName? (String.ofList cs) with
    | some kind => .ok (.scalar kind)
    | none =>
      match (after? "ref<".toList cs).bind bracketed? with
      | some inner => parseRef inner
      | none =>
        match after? "vec".toList cs with
        | some rest => parseVector cs rest
        | none =>
          if isName cs then .ok (.inline (String.ofList cs))
          else .error (.notAType (String.ofList cs))

def parse (s : String) : Except TypeFault TypeExpr := parseChars (Text.trimChars s.toList)

end TypeExpr

end WordLayout
