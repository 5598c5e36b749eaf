import QueryShapes.ClientLibrary

namespace QueryShapes

/-- What a run generates: the library it targets, the object type that
generated types must descend from, and the modules left out. -/
structure Config where
  library : ClientLibrary := {}
  root : Option String := some "std::Object"
  excludedModules : List String := ["schema", "sys", "cfg", "seq", "stdgraphql"]
deriving DecidableEq, Repr

namespace Config

def withLibrary (c : Config) (moduleName space : String) : Config :=
  { c with library := ⟨moduleName, space⟩ }

def withRoot (c : Config) (name : String) : Config :=
  { c with root := some name }

def withoutRoot (c : Config) : Config :=
  { c with root := none }

def exclude (c : Config) (m : String) : Config :=
  if m ∈ c.excludedModules then c else { c with excludedModules := c.excludedModules ++ [m] }

def withExcluded (c : Config) (modules : List String) : Config :=
  { c with excludedModules := modules }

end Config
end QueryShapes
