import WordLayout.Scalar

namespace WordLayout

inductive TypeExpr
  | scalar (kind : ScalarKind)
  | vector (kind : ScalarKind) (lanes : UInt8)
  | inline (name : String)
  | ref (name : String)
  deriving DecidableEq, Inhabited

def TypeExpr.render : TypeExpr → String
  | .scalar kind => kind.name
  | .vector kind lanes => "vec" ++ toString lanes.toNat ++ "<" ++ kind.name ++ ">"
  | .inline name => name
  | .ref name => "ref<" ++ name ++ ">"

end WordLayout
