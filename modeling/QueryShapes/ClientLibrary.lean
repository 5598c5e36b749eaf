import QueryShapes.Text.Quoted
import QueryShapes.Vocabulary

namespace QueryShapes

/-- The library that generated units import, and the namespace they import
from it. Units only refer to its members, so this type only spells references. -/
structure ClientLibrary where
  moduleName : String := "edgedb"
  space : String := "model"
deriving DecidableEq, Repr

namespace ClientLibrary

def importLine (lib : ClientLibrary) : String :=
  "import \x7b" ++ lib.space ++ "\x7d from " ++ quoted lib.moduleName ++ ";"

def cardinality (lib : ClientLibrary) (c : Cardinality) : String :=
  lib.space ++ ".Cardinality." ++ c.marker

def kind (lib : ClientLibrary) (k : PointerKind) : String :=
  lib.space ++ ".Kind." ++ k.marker

def linkType (lib : ClientLibrary) (target : String) (c : Cardinality) : String :=
  lib.space ++ ".Link<" ++ target ++ ", " ++ lib.cardinality c ++ ">"

def propertyType (lib : ClientLibrary) (type : String) (c : Cardinality) : String :=
  lib.space ++ ".Property<" ++ type ++ ", " ++ lib.cardinality c ++ ">"

/-- The constraint on what a query may select from a shape. -/
def selectArgs (lib : ClientLibrary) (shape : String) : String :=
  lib.space ++ ".MakeSelectArgs<" ++ shape ++ ">"

/-- The type of a query that selects `spec` from a shape. -/
def queryOf (lib : ClientLibrary) (spec shape : String) : String :=
  lib.space ++ ".Query<" ++ lib.space ++ ".Result<" ++ spec ++ ", " ++ shape ++ ">>"

def shapeCall (lib : ClientLibrary) (base spec : String) : String :=
  lib.space ++ ".shape(" ++ base ++ ", " ++ spec ++ ")"

end ClientLibrary
end QueryShapes
