import WordLayout.Description.Basic
import WordLayout.Description.TypeParser
import WordLayout.Text.Bytes
import WordLayout.Validation.Error

namespace WordLayout

inductive MemberFault
  | type (fault : TypeFault)
  | later (name : String)
  | unknown (name : String)
  deriving DecidableEq, Inhabited

def MemberFault.text : MemberFault → String
  | .type fault => fault.text
  | .later name => "type " ++ name ++ " must be declared before it is inlined"
  | .unknown name => "unknown type " ++ Text.quoted name

/-- The case `stated` is a fault known by its wording only. In the case `brokenOff` loading could
not go on at all: a collection stands as a key beside a merged mapping. -/
inductive LoadFault
  | stated (text : String)
  | brokenOff
  | empty
  | notMapping
  | unknownKey (key : String)
  | noModule
  | noTypes (module : String)
  | structAndUnion (struct union : String)
  | structWithVariants (name : String)
  | unionWithFields (name : String)
  | noName
  | unnamedField (type : String)
  | unnamedVariant (type : String)
  | field (type name : String) (fault : MemberFault)
  | variant (type name : String) (fault : MemberFault)
  | invalid (errors : List ValidationError)
  deriving DecidableEq, Inhabited

def LoadFault.text : LoadFault → String
  | .stated text => text
  | .brokenOff => "a collection cannot be a key beside a merged mapping"
  | .empty => "empty description"
  | .notMapping => "expected a mapping"
  | .unknownKey key => "unknown key " ++ Text.quoted key
  | .noModule => "missing module name"
  | .noTypes module => "module " ++ module ++ " declares no types"
  | .structAndUnion struct union =>
    "declaration is both struct " ++ struct ++ " and union " ++ union
  | .structWithVariants name => "struct " ++ name ++ " cannot have variants"
  | .unionWithFields name => "union " ++ name ++ " cannot have fields"
  | .noName => "declaration needs a struct or union name"
  | .unnamedField type => "field of " ++ type ++ " needs a name"
  | .unnamedVariant type => "variant of " ++ type ++ " needs a name"
  | .field type name fault => "field " ++ type ++ "." ++ name ++ ": " ++ fault.text
  | .variant type name fault => "variant " ++ type ++ "." ++ name ++ ": " ++ fault.text
  | .invalid errors => ValidationError.summary errors

structure Located where
  fault : LoadFault
  position : Position := {}
  deriving DecidableEq, Inhabited

structure SourceError where
  fault : LoadFault
  position : Position := {}
  source : List UInt8 := []
  deriving DecidableEq, Inhabited

namespace SourceError

def text (e : SourceError) : String := e.fault.text

def message (e : SourceError) : String :=
  if e.position.line = 0 then e.text
  else toString e.position.line ++ ":" ++ toString e.position.column ++ ": " ++ e.text

def splitLines : List UInt8 → List (List UInt8)
  | [] => [[]]
  | b :: bs =>
    if b = 10 then [] :: splitLines bs
    else
      match splitLines bs with
      | [] => [[b]]
      | line :: lines => (b :: line) :: lines

def line? (e : SourceError) : Option (List UInt8) :=
  if e.source.isEmpty ∨ e.position.line < 1 then none
  else (splitLines e.source)[e.position.line.toNat - 1]?

def padLeft (width : Nat) (s : String) : String :=
  String.ofList (List.replicate (width - s.length) ' ') ++ s

def context (e : SourceError) : String :=
  match e.line? with
  | none => e.message
  | some line =>
    let number := toString e.position.line
    let column := min (max e.position.column 1).toNat (line.length + 1)
    "error: " ++ e.text ++ "\n  --> line " ++ number ++ ":" ++ toString column ++ "\n   |\n" ++
      padLeft 3 number ++ "| " ++ Text.ofBytes line ++ "\n   | " ++
      String.ofList (List.replicate (column - 1) ' ') ++ "^\n"

def validation? (e : SourceError) : Option (List ValidationError) :=
  match e.fault with
  | .invalid errors => some errors
  | _ => none

end SourceError

end WordLayout
