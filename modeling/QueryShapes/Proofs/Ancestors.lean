import QueryShapes.Proofs.BaseOrder
import QueryShapes.Proofs.CastChains
import QueryShapes.Proofs.DepthFirst

namespace QueryShapes
open Relation

namespace Graph

/-- The stack takes up listed ids as the recursion does, and goes on with what lies below them. -/
theorem reachable_append (g : Graph) (owner : TypeRecord) (ids pending seen : List TypeId) :
    g.reachable (ids ++ pending) seen =
      (g.depthFirst TypeRecord.bases owner ids seen).records ++
        g.reachable pending (g.depthFirst TypeRecord.bases owner ids seen).visited := by
  fun_induction depthFirst g TypeRecord.bases owner ids seen generalizing pending with
  | case1 => rfl
  | case2 owner seen id ids old ih => rw [List.cons_append, reachable, dif_pos old, ih]
  | case3 owner seen id ids new missing ih =>
    rw [List.cons_append, reachable, dif_neg new, ← ih]
    split
    · rfl
    · rename_i found
      cases missing.symm.trans found
  | case4 owner seen id ids new r found below rest ihBelow ihRest =>
    rw [List.cons_append, reachable, dif_neg new]
    split
    · rename_i missing
      cases missing.symm.trans found
    · rename_i found'
      cases found'.symm.trans found
      rw [ihBelow, ihRest, Traversal.records_meet, Traversal.visited_meet, List.cons_append, List.append_assoc]

theorem ancestors_eq {g : Graph} {r : TypeRecord} (own : g.get? r.id = some r) :
    g.ancestors r.id = (g.depthFirst TypeRecord.bases r r.bases [r.id]).records := by
  have traversed := g.reachable_append r r.bases [] [r.id]
  rw [List.append_nil, reachable, List.append_nil] at traversed
  rw [ancestors, own]
  exact traversed

/-- The ancestors of a type are the other types that its bases lead to. -/
theorem mem_ancestors_iff {g : Graph} {r a : TypeRecord} (own : g.get? r.id = some r) :
    a ∈ g.ancestors r.id ↔ a.id ≠ r.id ∧ TransGen g.IsBase r a := by
  rw [ancestors_eq own]
  constructor
  · intro met
    obtain ⟨id, base, b, here, path⟩ := reached_of_mem_records met
    have other := nodup_depthFirst.2 a.id (List.mem_map_of_mem met)
    exact ⟨fun same => other (same ▸ List.mem_singleton_self _), TransGen.head' ⟨id, base, here⟩ path⟩
  · rintro ⟨other, path⟩
    obtain ⟨first, deeper⟩ := g.depthFirst_settles TypeRecord.bases r r.bases [r.id]
    have settled {id : TypeId} {b : TypeRecord} (found : g.get? id = some b)
        (visited : id ∈ (g.depthFirst TypeRecord.bases r r.bases [r.id]).visited) :
        b = r ∨ b ∈ (g.depthFirst TypeRecord.bases r r.bases [r.id]).records := by
      by_cases itself : id = r.id
      · rw [itself, own] at found
        exact Or.inl (Option.some.inj found).symm
      · exact Or.inr (mem_records_of_visited found (by simpa using itself) visited)
    have visited : a = r ∨ a ∈ (g.depthFirst TypeRecord.bases r r.bases [r.id]).records := by
      refine eq_or_visited_of_path ?_ ?_ path.to_reflTransGen
      · rintro b ⟨id, base, here⟩
        exact settled here (first id base b here)
      · rintro b there c ⟨id, base, here⟩
        exact settled here (deeper b there id base c here)
    exact visited.resolve_left fun same => other (same ▸ rfl)

theorem nodup_ancestors (g : Graph) (id : TypeId) : ((g.ancestors id).map TypeRecord.id).Nodup := by
  cases here : g.get? id with
  | none => simp [ancestors, here]
  | some r =>
    cases id_of_get? here
    rw [ancestors_eq here]
    exact nodup_depthFirst.1

theorem mem_map_ancestors_iff {g : Graph} {id target : TypeId} :
    target ∈ (g.ancestors id).map TypeRecord.id ↔
      target ≠ id ∧ ∃ r a, g.get? id = some r ∧ g.get? target = some a ∧ TransGen g.IsBase r a := by
  cases here : g.get? id with
  | none => simp [ancestors, here]
  | some r =>
    cases id_of_get? here
    constructor
    · intro listed
      obtain ⟨a, found, rfl⟩ := List.mem_map.mp listed
      obtain ⟨other, path⟩ := (mem_ancestors_iff here).mp found
      obtain ⟨_, _, last⟩ := TransGen.tail'_iff.mp path
      exact ⟨other, r, a, rfl, last.get?_id, path⟩
    · rintro ⟨other, r', a, same, there, path⟩
      cases same
      cases id_of_get? there
      exact List.mem_map_of_mem ((mem_ancestors_iff here).mpr ⟨other, path⟩)

theorem isDescendant_eq_true_iff {g : Graph} {id ancestor : TypeId} :
    g.isDescendant id ancestor = true ↔ ancestor ∈ (g.ancestors id).map TypeRecord.id := by
  simp [isDescendant]

theorem isDescendant_iff {g : Graph} {r a : TypeRecord} (own : g.get? r.id = some r)
    (other : g.get? a.id = some a) :
    g.isDescendant r.id a.id = true ↔ a.id ≠ r.id ∧ TransGen g.IsBase r a := by
  rw [isDescendant_eq_true_iff, mem_map_ancestors_iff]
  simp [own, other]

end Graph

namespace CastMap

theorem lookup_extendEdges (source other : TypeId) (new : List TypeId) (edges : List (TypeId × List TypeId)) :
    (extendEdges source new edges).lookup other =
      if other = source then some (addNew ((edges.lookup source).getD []) new) else edges.lookup other := by
  induction edges with
  | nil => by_cases same : other = source <;> simp [extendEdges, same]
  | cons edge edges ih =>
    obtain ⟨key, old⟩ := edge
    by_cases atKey : key = source
    · subst key
      by_cases same : other = source
      · simp [extendEdges, same]
      · have apart : (other == source) = false := by simpa using same
        simp [extendEdges, List.lookup_cons, same, apart]
    · have passed : (source == key) = false := by simpa using Ne.symm atKey
      rw [extendEdges, if_neg atKey, List.lookup_cons, ih, List.lookup_cons, List.lookup_cons, passed]
      by_cases same : other = key
      · subst other
        simp [atKey]
      · have apart : (other == key) = false := by simpa using same
        simp [apart]

theorem mem_targets_extend {m : CastMap} {source other target : TypeId} {new : List TypeId} :
    target ∈ (m.extend source new).targets other ↔ target ∈ m.targets other ∨ other = source ∧ target ∈ new := by
  rw [targets, extend, lookup_extendEdges]
  by_cases same : other = source
  · rw [if_pos same, Option.getD_some, mem_addNew, same]
    simp [targets]
  · simp [same, targets]

theorem extendEdges_map {f : TypeId → List TypeId} (distinct : ∀ id, (f id).Nodup) (known : List TypeId)
    (id : TypeId) :
    extendEdges id (f id) (known.map fun k => (k, f k)) = (addNew known [id]).map fun k => (k, f k) := by
  induction known with
  | nil =>
    have fresh : addNew [] (f id) = f id := addNew_of_nodup (distinct id)
    simp [extendEdges, fresh, addNew_singleton]
  | cons k known ih =>
    rw [List.map_cons, extendEdges]
    by_cases same : k = id
    · subst same
      rw [if_pos rfl, addNew_of_subset (List.Subset.refl _), addNew_of_subset (by simp), List.map_cons]
    · have later : addNew (k :: known) [id] = k :: addNew known [id] := by
        by_cases there : id ∈ known <;> simp [addNew_singleton, there, Ne.symm same]
      rw [if_neg same, ih, later, List.map_cons]

/-- Each listed id is a source once, where it comes first, also if it has no ancestors. -/
theorem edges_ofAncestors (g : Graph) (ids : List TypeId) :
    (ofAncestors g ids).edges = ids.eraseDups.map fun id => (id, (g.ancestors id).map TypeRecord.id) := by
  have step (known : List TypeId) (m : CastMap)
      (edges : m.edges = known.map fun id => (id, (g.ancestors id).map TypeRecord.id)) :
      (ids.foldl (fun m id => m.extend id ((g.ancestors id).map TypeRecord.id)) m).edges =
        (addNew known ids).map fun id => (id, (g.ancestors id).map TypeRecord.id) := by
    induction ids generalizing known m with
    | nil => exact edges
    | cons id ids ih =>
      rw [List.foldl_cons, addNew_cons]
      refine ih _ _ ?_
      rw [extend, edges, extendEdges_map g.nodup_ancestors]
  rw [← addNew_nil]
  exact step [] {} rfl

/-- Listed types have casts to their ancestors, and no others have casts. -/
theorem targets_ofAncestors (g : Graph) (ids : List TypeId) (source : TypeId) :
    (ofAncestors g ids).targets source = if source ∈ ids then (g.ancestors source).map TypeRecord.id else [] := by
  rw [targets, edges_ofAncestors, lookup_map_key]
  simp only [List.mem_eraseDups]
  split <;> rfl

theorem mem_targets_ofAncestors {g : Graph} {ids : List TypeId} {source target : TypeId} :
    target ∈ (ofAncestors g ids).targets source ↔
      source ∈ ids ∧ target ∈ (g.ancestors source).map TypeRecord.id := by
  rw [targets_ofAncestors]
  split <;> simp_all

/-- By casts to ancestors a listed type can be cast to just the types it is or descends from. -/
theorem canCast_ofAncestors_iff {g : Graph} (distinct : g.ids.Nodup) {ids : List TypeId} {r a : TypeRecord}
    (member : r ∈ g.records) (other : a ∈ g.records) (listed : r.id ∈ ids) :
    (ofAncestors g ids).CanCast r.id a.id ↔ ReflTransGen g.IsBase r a := by
  constructor
  · intro path
    have reached : ∃ b, g.get? a.id = some b ∧ ReflTransGen g.IsBase r b := by
      generalize a.id = target at path
      induction path with
      | refl => exact ⟨r, Graph.get?_of_mem distinct member, .refl⟩
      | tail _ cast ih =>
        obtain ⟨b, here, before⟩ := ih
        obtain ⟨_, ancestor⟩ := mem_targets_ofAncestors.mp cast
        obtain ⟨_, b', c, here', there, path⟩ := Graph.mem_map_ancestors_iff.mp ancestor
        cases here.symm.trans here'
        exact ⟨c, there, before.trans path.to_reflTransGen⟩
    obtain ⟨b, here, path⟩ := reached
    rw [Graph.get?_of_mem distinct other] at here
    cases here
    exact path
  · intro path
    rcases reflTransGen_iff_eq_or_transGen.mp path with rfl | path
    · exact .refl
    · by_cases same : a.id = r.id
      · rw [same]
        exact .refl
      · have found := (Graph.mem_ancestors_iff (Graph.get?_of_mem distinct member)).mpr ⟨same, path⟩
        exact .single (mem_targets_ofAncestors.mpr ⟨listed, List.mem_map_of_mem found⟩)

end CastMap

end QueryShapes
