import QueryShapes.ListSet
import QueryShapes.ModulePath
import QueryShapes.Output.Tree
import QueryShapes.Scope
import QueryShapes.Units.MemberName
import QueryShapes.Text.Quoted

namespace QueryShapes

/-- An enum as it is emitted. -/
structure Enumeration where
  name : QualifiedName
  values : List String
deriving DecidableEq, Repr

namespace Enumeration

def lines (e : Enumeration) : List Line :=
  [.of ("export enum " ++ e.name.localIdent ++ " \x7b")] ++
    nested (((memberNames e.values).zip e.values).map fun (member, value) =>
      .of (member ++ " = " ++ quoted value ++ ",")) ++
    [.of "\x7d", .blank]

def writeTo (t : OutputTree) (e : Enumeration) : OutputTree :=
  t.update (moduleUnit e.name.moduleName) (·.addBody e.lines)

end Enumeration

namespace Scope

def enumerations (s : Scope) : Except SchemaError (List Enumeration) :=
  s.enumTypes.mapM fun r =>
    r.qualifiedName.map (⟨·, (r.scalar?.map ScalarType.enumValues).getD []⟩)

end Scope

/-- The modules of enums, each once. -/
def enumModules (enums : List Enumeration) : List String :=
  addNew [] (enums.map (·.name.moduleName))

def writeEnums (enums : List Enumeration) (t : OutputTree) : OutputTree :=
  enums.foldl Enumeration.writeTo t

end QueryShapes
