import QueryShapes.Shape.Composite

namespace QueryShapes

/-- A base whose fields a type inherits. A kept one has a composite of its own,
an elided one gives its pointers one by one. -/
inductive Inheritance
  | kept (base : TypeRecord)
  | elided (base : TypeRecord)
deriving DecidableEq, Repr

/-- What is still to do while bases are collected: to enter a base that a named
type lists, or to leave an elided one whose own bases are done. -/
inductive BaseVisit
  | enter (referencing : String) (id : TypeId)
  | leave (base : TypeRecord)
deriving DecidableEq, Repr

namespace Scope

/-- Collects kept bases, and elided ones after their own bases. A kept base may
come several times, an elided one comes once. -/
def inherit (s : Scope) : List BaseVisit → List TypeId → Except SchemaError (List Inheritance)
  | [], _ => .ok []
  | .leave base :: pending, seen => (inherit s pending seen).map (.elided base :: ·)
  | .enter referencing id :: pending, seen =>
    match _found : s.graph.resolve referencing id with
    | .error e => .error e
    | .ok base =>
      if s.keepsShape base then (inherit s pending seen).map (.kept base :: ·)
      else if _old : base.id ∈ seen then inherit s pending seen
      else inherit s (base.bases.map (.enter base.name) ++ .leave base :: pending) (base.id :: seen)
termination_by pending seen => (fresh s.graph.ids seen, pending.length)
decreasing_by
  · exact Prod.Lex.right _ (by simp)
  · exact Prod.Lex.right _ (by simp)
  · exact Prod.Lex.right _ (by simp)
  · exact Prod.Lex.left _ _
      (fresh_cons_lt (List.mem_map_of_mem (Graph.mem_of_get? (Graph.get?_of_resolve _found))) _old)

def inheritances (s : Scope) (r : TypeRecord) : Except SchemaError (List Inheritance) :=
  s.inherit (r.bases.map (.enter r.name)) []

def declared (s : Scope) (r : TypeRecord) : Except GenerationError (List Descriptor) :=
  r.pointers.mapM (s.describe r.name)

def inheritedMembers (s : Scope) : Inheritance → Except GenerationError (List Member)
  | .kept base => ((symbolOf base).map fun symbol => [.spread symbol]).mapError .schema
  | .elided base => (s.declared base).map fun descriptors => descriptors.map .getter

def composite (s : Scope) (r : TypeRecord) : Except GenerationError Composite := do
  let inheritances ← (s.inheritances r).mapError .schema
  let inherited ← inheritances.mapM s.inheritedMembers
  let own ← s.declared r
  return .ofMembers inherited.flatten own

end Scope
end QueryShapes
