import QueryShapes.Schema.Build
import QueryShapes.Units.CastMaps
import QueryShapes.Units.Enumeration
import QueryShapes.Units.ModuleIndex
import QueryShapes.Units.ObjectDefinition

namespace QueryShapes

/-- What a run emits, and what it counts. -/
structure Generation where
  tree : OutputTree
  enums : Nat
  objects : Nat
  ambiguities : List CastAmbiguity
deriving DecidableEq, Repr

namespace Generation

def units (g : Generation) : Nat :=
  g.tree.size

end Generation

namespace Scope

/-- Emits all units. Nothing is written before everything is resolved. -/
def generate (s : Scope) (casts : CastMap) : Except GenerationError Generation := do
  let enums ← s.enumerations.mapError .schema
  let objects ← s.objectDefinitions
  let scalarCasts := s.scalarMatrix casts
  let objectCasts := s.objectMatrix
  let tree := writeEnums enums {}
  let tree := writeObjects s.config.library (enumModules enums) objects tree
  let tree := writeIndex (addNew (enumModules enums) (objectModules objects)) tree
  let tree := writeCastMaps scalarCasts objectCasts tree
  return ⟨tree, enums.length, objects.length, scalarCasts.ambiguities ++ objectCasts.ambiguities⟩

end Scope

/-- Builds the graph of a snapshot, orders it and generates its units. -/
def Snapshot.generate (snapshot : Snapshot) (config : Config) : Except GenerationError Generation := do
  let graph ← (Graph.build snapshot.types).mapError .schema
  let order ← graph.order.mapError .schema
  let scope ← (Scope.make graph order config).mapError .schema
  scope.generate (.ofImplicit snapshot.casts)

def generateFromText (text : String) (config : Config) : Except GenerationError Generation := do
  let snapshot ← (readSnapshot text).mapError .document
  snapshot.generate config

/-- Generates from a file, given the text that was read there. -/
def generateFromFile (text : Except String String) (config : Config) : Except GenerationError Generation := do
  generateFromText (← text.mapError .unreadable) config

end QueryShapes
