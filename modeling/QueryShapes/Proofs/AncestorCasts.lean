import QueryShapes.Proofs.Ancestors
import QueryShapes.Proofs.CastDistances

namespace QueryShapes.CastMap

/-- An ancestor's own ancestors are ancestors, or the type itself where bases close a circle. -/
theorem ancestors_trans {g : Graph} {id ancestor target : TypeId}
    (first : ancestor ∈ (g.ancestors id).map TypeRecord.id)
    (second : target ∈ (g.ancestors ancestor).map TypeRecord.id) :
    target = id ∨ target ∈ (g.ancestors id).map TypeRecord.id := by
  obtain ⟨_, r, a, here, there, path⟩ := Graph.mem_map_ancestors_iff.mp first
  obtain ⟨_, a', b, there', beyond, path'⟩ := Graph.mem_map_ancestors_iff.mp second
  cases there.symm.trans there'
  by_cases itself : target = id
  · exact Or.inl itself
  · exact Or.inr (Graph.mem_map_ancestors_iff.mpr ⟨itself, r, b, here, beyond, path.trans path'⟩)

/-- Chains of casts to ancestors lead to nothing but ancestors, and in the same order. -/
theorem chained_ofAncestors (g : Graph) {ids : List TypeId} {id : TypeId} (listed : id ∈ ids) :
    (ofAncestors g ids).chained id = (g.ancestors id).map TypeRecord.id := by
  have settled : (ofAncestors g ids).reach ((g.ancestors id).map TypeRecord.id ++ []) [id] =
      (g.ancestors id).map TypeRecord.id := by
    refine reach_append_of_settled (g.nodup_ancestors id) (fun ancestor found => ?_) (by simp)
      fun ancestor found target cast => ?_
    · rw [List.mem_singleton]
      exact (Graph.mem_map_ancestors_iff.mp found).1
    · rw [List.mem_singleton]
      exact ancestors_trans found (mem_targets_ofAncestors.mp cast).2
  rw [List.append_nil] at settled
  rw [chained, targets_ofAncestors, if_pos listed]
  exact settled

theorem agrees_map_key (f : TypeId → List TypeId) (keys : List TypeId) :
    agrees ⟨keys.map fun key => (key, f key)⟩ ⟨keys.map fun key => (key, f key)⟩ = true := by
  simp only [agrees, BEq.rfl, Bool.true_and, List.all_eq_true, List.mem_map]
  rintro _ ⟨key, listed, rfl⟩
  simp [lookup_map_key, listed]

/-- Casts to ancestors are closed already: their closure is the same map, even with its targets
in the same order. Each listed id is a source once, also one that the graph lacks, and its targets
are its ancestors, whatever circles bases close. -/
theorem closure_ofAncestors (g : Graph) (ids : List TypeId) :
    (ofAncestors g ids).closure = ofAncestors g ids ∧
      (ofAncestors g ids).closure.agrees (ofAncestors g ids) = true ∧
        (ofAncestors g ids).edges = ids.eraseDups.map fun id => (id, (g.ancestors id).map TypeRecord.id) := by
  have edges := edges_ofAncestors g ids
  have sources : (ofAncestors g ids).sources = ids.eraseDups := by
    simp [CastMap.sources, edges, Function.comp_def]
  have sameEdges : (ofAncestors g ids).closure.edges = (ofAncestors g ids).edges := by
    rw [edges_closure, sources, edges]
    refine List.map_congr_left fun id listed => ?_
    rw [chained_ofAncestors g (List.mem_eraseDups.mp listed)]
  have closed : (ofAncestors g ids).closure = ofAncestors g ids := congrArg CastMap.mk sameEdges
  have whole : ofAncestors g ids = ⟨ids.eraseDups.map fun id => (id, (g.ancestors id).map TypeRecord.id)⟩ :=
    congrArg CastMap.mk edges
  refine ⟨closed, ?_, edges⟩
  rw [closed, whole]
  exact agrees_map_key _ _

end QueryShapes.CastMap
