import WordLayout.Yaml.Scalar

namespace WordLayout.Yaml

structure Place where
  line : Nat
  column : Nat
  deriving DecidableEq, Inhabited

inductive Node
  | scalar (place : Place) (tag text : String)
  | sequence (place : Place) (tag : String) (items : List Node)
  | mapping (place : Place) (tag : String) (entries : List (Node × Node))
  | alias (place : Place) (name : String) (target : Nat)
  deriving Inhabited

structure Document where
  root : Node
  parts : List (Nat × Node)
  size : Nat
  deriving Inhabited

namespace Node

def place : Node → Place
  | .scalar place .. | .sequence place .. | .mapping place .. | .alias place .. => place

def tag : Node → String
  | .scalar _ tag _ | .sequence _ tag _ | .mapping _ tag _ => tag
  | .alias .. => ""

def text : Node → String
  | .scalar _ _ text => text
  | .alias _ name _ => name
  | .sequence .. | .mapping .. => ""

def sameKey : Node → Node → Bool
  | .scalar _ _ a, .scalar _ _ b => a == b
  | .alias _ a _, .alias _ b _ => a == b
  | .sequence .., .sequence .. | .mapping .., .mapping .. => true
  | _, _ => false

end Node

def Document.follow (d : Document) (n : Node) : Node :=
  match n with
  | .alias _ _ target => (d.parts.lookup target).getD n
  | n => n

/-- How deep a walk through the tree can get that follows aliases, but no alias inside of itself:
between two aliases it only goes down. -/
def Document.depthBound (d : Document) : Nat := (d.size + 2) * (d.size + 2)

end WordLayout.Yaml
