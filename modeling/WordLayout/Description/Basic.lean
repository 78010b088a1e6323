namespace WordLayout

structure Position where
  line : Int := 0
  column : Int := 0
  deriving DecidableEq, Inhabited

structure FieldDecl where
  name : String := ""
  type : String := ""
  offset : Option UInt32 := none
  position : Position := {}
  deriving DecidableEq, Inhabited

structure PayloadDecl where
  type : String := ""
  offset : Option UInt32 := none
  position : Position := {}
  deriving DecidableEq, Inhabited

structure VariantDecl where
  name : String := ""
  payload : List PayloadDecl := []
  position : Position := {}
  deriving DecidableEq, Inhabited

structure TypeDecl where
  struct : String := ""
  union : String := ""
  size : Option UInt32 := none
  fields : List FieldDecl := []
  variants : List VariantDecl := []
  position : Position := {}
  deriving DecidableEq, Inhabited

structure Description where
  module : String := ""
  writable : Bool := false
  types : List TypeDecl := []
  position : Position := {}
  deriving DecidableEq, Inhabited

end WordLayout
