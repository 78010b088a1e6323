namespace WordLayout.Log

inductive Level
  | debug
  | warn
  deriving DecidableEq, Inhabited

def Level.name : Level → String
  | .debug => "debug"
  | .warn => "warn"

inductive Value
  | text (s : String)
  | number (n : Nat)
  | flag (b : Bool)
  deriving DecidableEq, Inhabited

structure Entry where
  level : Level
  message : String
  values : List (String × Value)
  deriving DecidableEq, Inhabited

end WordLayout.Log
