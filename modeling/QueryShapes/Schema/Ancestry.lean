import QueryShapes.Schema.Fresh
import QueryShapes.Schema.Graph

namespace QueryShapes.Graph

/-- The records of the pending ids and of all that their bases lead to, in
depth-first order, except those already seen. -/
def reachable (g : Graph) : List TypeId → List TypeId → List TypeRecord
  | [], _ => []
  | id :: pending, seen =>
    if _old : id ∈ seen then reachable g pending seen
    else
      match _found : g.get? id with
      | none => reachable g pending seen
      | some r => r :: reachable g (r.bases ++ pending) (id :: seen)
termination_by pending seen => (fresh g.ids seen, pending.length)
decreasing_by
  · exact Prod.Lex.right _ (by simp)
  · exact Prod.Lex.right _ (by simp)
  · exact Prod.Lex.left _ _ (fresh_cons_lt (id_of_get? _found ▸ List.mem_map_of_mem (mem_of_get? _found)) _old)

/-- All that the bases of a type lead to, itself left out. A base comes before
its own bases, and these before the next base. -/
def ancestors (g : Graph) (id : TypeId) : List TypeRecord :=
  match g.get? id with
  | some r => g.reachable r.bases [id]
  | none => []

def isDescendant (g : Graph) (id ancestor : TypeId) : Bool :=
  (g.ancestors id).any (·.id = ancestor)

end QueryShapes.Graph
