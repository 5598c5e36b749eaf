import QueryShapes.ListSet
import QueryShapes.Schema.Ancestry

namespace QueryShapes

/-- Which types the values of a type can be cast to. Sources come once each, in
the order of their first mention, and so do the targets of each. -/
structure CastMap where
  edges : List (TypeId × List TypeId) := []
deriving DecidableEq, Repr

namespace CastMap

def sources (m : CastMap) : List TypeId :=
  m.edges.map Prod.fst

def targets (m : CastMap) (source : TypeId) : List TypeId :=
  (m.edges.lookup source).getD []

def extendEdges (source : TypeId) (new : List TypeId) : List (TypeId × List TypeId) → List (TypeId × List TypeId)
  | [] => [(source, addNew [] new)]
  | (s, old) :: rest =>
    if s = source then (s, addNew old new) :: rest else (s, old) :: extendEdges source new rest

/-- Adds targets to a source, which is listed from then on even without any. -/
def extend (m : CastMap) (source : TypeId) (new : List TypeId) : CastMap :=
  ⟨extendEdges source new m.edges⟩

def insert (m : CastMap) (source target : TypeId) : CastMap :=
  m.extend source [target]

/-- The casts that need not be written. -/
def ofImplicit (casts : List Cast) : CastMap :=
  (casts.filter Cast.allowImplicit).foldl (fun m c => m.insert c.source c.target) {}

/-- An object is a value of every type its own type descends from. -/
def ofAncestors (g : Graph) (ids : List TypeId) : CastMap :=
  ids.foldl (fun m id => m.extend id ((g.ancestors id).map TypeRecord.id)) {}

def isCastable (m : CastMap) (source target : TypeId) : Bool :=
  target ∈ m.targets source

def size (m : CastMap) : Nat :=
  m.edges.length

def isEmpty (m : CastMap) : Bool :=
  m.edges.all fun (_, targets) => targets.isEmpty

/-- Two maps agree when they list the same sources with the same targets, in
whatever order. -/
def agrees (m n : CastMap) : Bool :=
  m.size == n.size && m.edges.all fun (source, targets) =>
    match n.edges.lookup source with
    | none => false
    | some others => targets.length == others.length && targets.all (· ∈ others)

end CastMap
end QueryShapes
