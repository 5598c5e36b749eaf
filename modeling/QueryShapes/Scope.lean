import QueryShapes.Config
import QueryShapes.Schema.Ancestry
import QueryShapes.Schema.Order

namespace QueryShapes

/-- Which types of an ordered graph reach the output. With a root, object types
must descend from it. -/
structure Scope where
  graph : Graph
  order : TypeOrder
  config : Config
  root : Option TypeRecord
deriving DecidableEq, Repr

namespace Scope

def findRoot (g : Graph) : Option String → Except SchemaError (Option TypeRecord)
  | none => .ok none
  | some name =>
    match g.named? name with
    | none => .error (.typeNotFound name)
    | some r => if r.isObject then .ok (some r) else .error (.wrongKind r "object")

def make (g : Graph) (order : TypeOrder) (config : Config) : Except SchemaError Scope :=
  (findRoot g config.root).map (⟨g, order, config, ·⟩)

/-- Only names with a module can be excluded. -/
def excludes (s : Scope) (name : String) : Bool :=
  match QualifiedName.parse name with
  | .ok q => s.config.excludedModules.any q.inModule
  | .error _ => false

def keepsObject (s : Scope) (r : TypeRecord) : Bool :=
  r.isObject && !s.excludes r.name &&
    match s.root with
    | some root => r.id == root.id || s.graph.isDescendant r.id root.id
    | none => true

/-- Kept object types that are no union or intersection get a shape. -/
def keepsShape (s : Scope) (r : TypeRecord) : Bool :=
  r.object?.any ObjectType.isConcrete && s.keepsObject r

def keepsEnum (s : Scope) (r : TypeRecord) : Bool :=
  r.scalar?.any ScalarType.isEnum && !s.excludes r.name

def enumTypes (s : Scope) : List TypeRecord :=
  (s.order.records s.graph).filter s.keepsEnum

def shapeTypes (s : Scope) : List TypeRecord :=
  (s.order.records s.graph).filter s.keepsShape

/-- Dependents first, so that the first type several types can be cast to is a
special one. -/
def materialScalars (s : Scope) : List TypeRecord :=
  (s.order.recordsReversed s.graph).filter fun r => r.scalar?.any ScalarType.isMaterial

def comparedObjects (s : Scope) : List TypeRecord :=
  (s.order.recordsReversed s.graph).filter s.keepsShape

end Scope
end QueryShapes
