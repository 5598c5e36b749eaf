import QueryShapes.ModulePath
import QueryShapes.Output.Tree
import QueryShapes.Text.Ident

namespace QueryShapes

def indexHead (modules : List String) : List Line :=
  modules.map fun m => .of ("import * as _" ++ identOf m ++ " from \"./" ++ moduleSpecifier m ++ "\";")

/-- All modules in one object. -/
def indexBody (modules : List String) : List Line :=
  [.of "const modules = \x7b"] ++
    nested (modules.map fun m => .of (identOf m ++ ": _" ++ identOf m ++ ",")) ++
    [.of "\x7d as const;", .of "export default modules;"]

def writeIndex (modules : List String) (t : OutputTree) : OutputTree :=
  t.update indexUnit fun u => (u.addHead (indexHead modules)).addBody (indexBody modules)

end QueryShapes
