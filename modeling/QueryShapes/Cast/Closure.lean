import QueryShapes.Cast.Map

namespace QueryShapes.CastMap

theorem targets_of_not_mem {m : CastMap} {source : TypeId} (h : source ∉ m.sources) : m.targets source = [] := by
  have : m.edges.lookup source = none := by
    rw [List.lookup_eq_none_iff]
    intro edge member
    have : edge.1 ≠ source := fun same => h (same ▸ List.mem_map_of_mem member)
    simpa using Ne.symm this
  simp [targets, this]

/-- The queued types and all that they can be cast to step by step, breadth
first, except those already seen. -/
def reach (m : CastMap) : List TypeId → List TypeId → List TypeId
  | [], _ => []
  | id :: queue, seen =>
    if _old : id ∈ seen then reach m queue seen
    else id :: reach m (queue ++ m.targets id) (id :: seen)
termination_by queue seen => (fresh m.sources seen, queue.length)
decreasing_by
  · exact Prod.Lex.right _ (by simp)
  · by_cases source : id ∈ m.sources
    · exact Prod.Lex.left _ _ (fresh_cons_lt source _old)
    · rw [fresh_cons_of_not_mem source, targets_of_not_mem source]
      exact Prod.Lex.right _ (by simp)

/-- The types a source can be cast to by a chain of casts, near ones first. The
source itself is not among them, whatever leads back to it. -/
def chained (m : CastMap) (source : TypeId) : List TypeId :=
  m.reach (m.targets source) [source]

/-- The map in which every chain of casts is one cast. -/
def closure (m : CastMap) : CastMap :=
  ⟨m.edges.map fun (source, _) => (source, m.chained source)⟩

end QueryShapes.CastMap
