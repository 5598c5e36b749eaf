import QueryShapes.ListSet
import QueryShapes.ModulePath
import QueryShapes.Shape.Inheritance

namespace QueryShapes

/-- A kept object type as it is emitted. -/
structure ObjectDefinition where
  name : QualifiedName
  composite : Composite
deriving Repr

namespace Scope

def objectDefinitions (s : Scope) : Except GenerationError (List ObjectDefinition) :=
  s.shapeTypes.mapM fun r => do
    let name ← r.qualifiedName.mapError .schema
    return ⟨name, ← s.composite r⟩

end Scope

namespace ObjectDefinition

def symbol (d : ObjectDefinition) : String :=
  d.name.symbol

/-- The module's view of the composite, with the function that makes queries of it. -/
def exportLines (lib : ClientLibrary) (d : ObjectDefinition) : List Line :=
  let base := "base." ++ d.symbol
  let shape := "typeof " ++ base
  [.of ("export const " ++ d.name.localIdent ++ " = \x7b")] ++
    nested (
      [.of ("..." ++ base ++ ","),
        .of ("shape: <Spec extends " ++ lib.selectArgs shape ++ ">(")] ++
      nested [.of "spec: Spec"] ++
      [.of ("): " ++ lib.queryOf "Spec" shape ++ " =>")] ++
      nested [.of (lib.shapeCall base "spec" ++ ",")]) ++
    [.of "\x7d as const;", .blank]

/-- Says that a unit has its imports. -/
def importFlag : String := "base-import"

def addImports (lib : ClientLibrary) (m : String) (u : OutputUnit) : OutputUnit :=
  if u.isMarked importFlag then u
  else (u.mark importFlag).addHead
    [.of lib.importLine, .of ("import base from \"" ++ pathToRoot m ++ "__base__\";")]

def writeTo (lib : ClientLibrary) (t : OutputTree) (d : ObjectDefinition) : OutputTree :=
  t.update (moduleUnit d.name.moduleName) fun u =>
    (addImports lib d.name.moduleName u).addBody (d.exportLines lib)

end ObjectDefinition

/-- The modules of object types, each once. -/
def objectModules (definitions : List ObjectDefinition) : List String :=
  addNew [] (definitions.map (·.name.moduleName))

/-- The imports of the base unit, among them those of the enums' modules. -/
def baseHead (lib : ClientLibrary) (enumModules : List String) : List Line :=
  [.of lib.importLine, .blank] ++ enumModules.map fun m =>
    .of ("import type * as " ++ identOf m ++ "Types from \"./" ++ moduleSpecifier m ++ "\";")

/-- The object of all composites. Each may refer to those before it. -/
def baseBody (lib : ClientLibrary) (definitions : List ObjectDefinition) : List Line :=
  [.of "const base = (function() \x7b"] ++
    nested (
      definitions.flatMap (fun d => d.composite.lines lib d.symbol) ++
      [.of "return \x7b"] ++
      nested (definitions.map fun d => .of (d.symbol ++ ",")) ++
      [.of "\x7d;"]) ++
    [.of "\x7d)();", .blank, .of "export default base;"]

/-- Writes the base unit, then an export for each definition. -/
def writeObjects (lib : ClientLibrary) (enumModules : List String) (definitions : List ObjectDefinition)
    (t : OutputTree) : OutputTree :=
  definitions.foldl (ObjectDefinition.writeTo lib) <|
    t.update baseUnit fun u => { u.addHead (baseHead lib enumModules) with body := baseBody lib definitions }

end QueryShapes
