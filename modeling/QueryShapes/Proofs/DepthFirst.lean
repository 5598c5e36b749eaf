import QueryShapes.Proofs.GraphEdges
import QueryShapes.Schema.Ancestry

namespace QueryShapes
open Relation

/-- What a depth-first traversal meets: each record with the one that led to it first, and
the ids that are seen by then. -/
structure Traversal (seen : List TypeId) where
  steps : List (TypeRecord × TypeRecord)
  visited : List TypeId
  grows : seen ⊆ visited

namespace Traversal

variable {seen : List TypeId}

/-- The records that are met, in the order of their first encounter. -/
def records (t : Traversal seen) : List TypeRecord :=
  t.steps.map Prod.snd

def nil (seen : List TypeId) : Traversal seen :=
  ⟨[], seen, List.Subset.refl seen⟩

/-- A record is met before all that it leads to, and that before what comes next. -/
def meet (owner r : TypeRecord) {id : TypeId} (below : Traversal (id :: seen)) (rest : Traversal below.visited) :
    Traversal seen :=
  ⟨(owner, r) :: (below.steps ++ rest.steps), rest.visited,
    fun _ old => rest.grows (below.grows (List.mem_cons_of_mem id old))⟩

@[simp]
theorem visited_nil : (nil seen).visited = seen :=
  rfl

@[simp]
theorem records_nil : (nil seen).records = [] :=
  rfl

variable (owner r : TypeRecord) {id : TypeId} (below : Traversal (id :: seen)) (rest : Traversal below.visited)

@[simp]
theorem visited_meet : (meet owner r below rest).visited = rest.visited :=
  rfl

@[simp]
theorem records_meet : (meet owner r below rest).records = r :: (below.records ++ rest.records) := by
  simp [records, meet]

end Traversal

namespace Graph

theorem Leads.get?_id {g : Graph} {edges : TypeRecord → List TypeId} {r s : TypeRecord} (edge : g.Leads edges r s) :
    g.get? s.id = some s := by
  obtain ⟨id, _, found⟩ := edge
  rwa [id_of_get? found]

/-- Visits the listed ids one after the other, and right after each record what its own edges
lead to. Ids that are seen already are passed over. -/
def depthFirst (g : Graph) (edges : TypeRecord → List TypeId) (owner : TypeRecord) (ids seen : List TypeId) :
    Traversal seen :=
  match ids with
  | [] => .nil seen
  | id :: ids =>
    if _old : id ∈ seen then depthFirst g edges owner ids seen
    else
      match _found : g.get? id with
      | none => depthFirst g edges owner ids seen
      | some r =>
        let below := depthFirst g edges r (edges r) (id :: seen)
        let rest := depthFirst g edges owner ids below.visited
        .meet owner r below rest
termination_by (fresh g.ids seen, ids.length)
decreasing_by
  · exact Prod.Lex.right _ (by simp)
  · exact Prod.Lex.right _ (by simp)
  · exact Prod.Lex.left _ _ (fresh_cons_lt (id_of_get? _found ▸ List.mem_map_of_mem (mem_of_get? _found)) _old)
  · have fewer := fresh_cons_lt (id_of_get? _found ▸ List.mem_map_of_mem (mem_of_get? _found) : id ∈ g.ids) _old
    exact Prod.Lex.left _ _ (Nat.lt_of_le_of_lt (fresh_le_of_subset g.ids below.grows) fewer)

section Traversals

variable {g : Graph} {edges : TypeRecord → List TypeId} {owner r : TypeRecord} {id : TypeId}
    {ids seen : List TypeId}

theorem mem_visited_iff {id' : TypeId} :
    id' ∈ (g.depthFirst edges owner ids seen).visited ↔
      id' ∈ seen ∨ id' ∈ (g.depthFirst edges owner ids seen).records.map TypeRecord.id := by
  fun_induction depthFirst g edges owner ids seen with
  | case1 => simp
  | case2 owner seen id ids old ih | case3 owner seen id ids new missing ih => exact ih
  | case4 owner seen id ids new r found below rest ihBelow ihRest =>
    have inBelow : id' ∈ below.visited ↔ id' ∈ id :: seen ∨ id' ∈ below.records.map TypeRecord.id := ihBelow
    have inRest : id' ∈ rest.visited ↔ id' ∈ below.visited ∨ id' ∈ rest.records.map TypeRecord.id := ihRest
    rw [Traversal.visited_meet, Traversal.records_meet, List.map_cons, List.map_append, id_of_get? found, inRest,
      inBelow, List.mem_cons, List.mem_cons, List.mem_append]
    tauto

/-- No record is met twice, and none that is seen before. -/
theorem nodup_depthFirst :
    ((g.depthFirst edges owner ids seen).records.map TypeRecord.id).Nodup ∧
      ∀ id ∈ (g.depthFirst edges owner ids seen).records.map TypeRecord.id, id ∉ seen := by
  fun_induction depthFirst g edges owner ids seen with
  | case1 => simp
  | case2 owner seen id ids old ih | case3 owner seen id ids new missing ih => exact ih
  | case4 owner seen id ids new r found below rest ihBelow ihRest =>
    obtain ⟨distinctBelow, newBelow⟩ := ihBelow
    obtain ⟨distinctRest, newRest⟩ := ihRest
    have inBelow {id' : TypeId} (met : id' ∈ below.records.map TypeRecord.id) : id' ∈ below.visited :=
      mem_visited_iff.mpr (Or.inr met)
    rw [Traversal.records_meet, List.map_cons, List.map_append, id_of_get? found]
    constructor
    · refine List.nodup_cons.mpr ⟨fun again => ?_, ?_⟩
      · rcases List.mem_append.mp again with again | again
        · exact newBelow id again (List.mem_cons_self ..)
        · exact newRest id again (below.grows (List.mem_cons_self ..))
      · refine List.nodup_append.mpr ⟨distinctBelow, distinctRest, ?_⟩
        rintro id' met _ again rfl
        exact newRest id' again (inBelow met)
    · refine List.forall_mem_cons.mpr
        ⟨new, List.forall_mem_append.mpr ⟨fun id' met old => ?_, fun id' met old => ?_⟩⟩
      · exact newBelow id' met (List.mem_cons_of_mem _ old)
      · exact newRest id' met (below.grows (List.mem_cons_of_mem _ old))

/-- Each record is met from one that lists it. -/
theorem leads_of_mem_steps {lists : TypeRecord → List TypeId} (listed : ids ⊆ lists owner)
    (inner : ∀ r, edges r ⊆ lists r) {a b : TypeRecord}
    (met : (a, b) ∈ (g.depthFirst edges owner ids seen).steps) : g.Leads lists a b := by
  fun_induction depthFirst g edges owner ids seen with
  | case1 => cases met
  | case2 owner seen id ids old ih | case3 owner seen id ids new missing ih =>
    exact ih (List.cons_subset.mp listed).2 met
  | case4 owner seen id ids new r found below rest ihBelow ihRest =>
    obtain ⟨here, later⟩ := List.cons_subset.mp listed
    rcases List.mem_cons.mp met with same | met
    · cases same
      exact ⟨id, here, found⟩
    · rcases List.mem_append.mp met with met | met
      · exact ihBelow (inner r) met
      · exact ihRest later met

theorem owner_of_mem_steps {a b : TypeRecord} (met : (a, b) ∈ (g.depthFirst edges owner ids seen).steps) :
    a = owner ∨ a ∈ (g.depthFirst edges owner ids seen).records := by
  fun_induction depthFirst g edges owner ids seen with
  | case1 => cases met
  | case2 owner seen id ids old ih | case3 owner seen id ids new missing ih => exact ih met
  | case4 owner seen id ids new r found below rest ihBelow ihRest =>
    rw [Traversal.records_meet]
    rcases List.mem_cons.mp met with same | met
    · cases same
      exact Or.inl rfl
    · rcases List.mem_append.mp met with met | met
      · rcases ihBelow met with rfl | deeper
        · exact Or.inr (List.mem_cons_self ..)
        · exact Or.inr (List.mem_cons_of_mem _ (List.mem_append_left _ deeper))
      · exact (ihRest met).imp_right fun later => List.mem_cons_of_mem _ (List.mem_append_right _ later)

/-- One of the listed ids leads to whatever is met. -/
theorem reached_of_mem_records {r : TypeRecord} (met : r ∈ (g.depthFirst edges owner ids seen).records) :
    ∃ id ∈ ids, ∃ b, g.get? id = some b ∧ ReflTransGen (g.Leads edges) b r := by
  fun_induction depthFirst g edges owner ids seen with
  | case1 => cases met
  | case2 owner seen id ids old ih | case3 owner seen id ids new missing ih =>
    obtain ⟨start, listed, b, here, path⟩ := ih met
    exact ⟨start, List.mem_cons_of_mem _ listed, b, here, path⟩
  | case4 owner seen id ids new b found below rest ihBelow ihRest =>
    rw [Traversal.records_meet] at met
    rcases List.mem_cons.mp met with rfl | met
    · exact ⟨id, List.mem_cons_self .., r, found, .refl⟩
    · rcases List.mem_append.mp met with met | met
      · obtain ⟨start, edge, c, here, path⟩ := ihBelow met
        exact ⟨id, List.mem_cons_self .., b, found, .head ⟨start, edge, here⟩ path⟩
      · obtain ⟨start, listed, c, here, path⟩ := ihRest met
        exact ⟨start, List.mem_cons_of_mem _ listed, c, here, path⟩

/-- A traversal leaves nothing behind: neither what is listed nor what the records that it
meets lead to. -/
theorem depthFirst_settles (g : Graph) (edges : TypeRecord → List TypeId) (owner : TypeRecord)
    (ids seen : List TypeId) :
    (∀ id ∈ ids, ∀ b, g.get? id = some b → id ∈ (g.depthFirst edges owner ids seen).visited) ∧
      ∀ r ∈ (g.depthFirst edges owner ids seen).records, ∀ id ∈ edges r, ∀ b, g.get? id = some b →
        id ∈ (g.depthFirst edges owner ids seen).visited := by
  fun_induction depthFirst g edges owner ids seen with
  | case1 => simp
  | case2 owner seen id ids old ih =>
    obtain ⟨listed, deeper⟩ := ih
    exact ⟨List.forall_mem_cons.mpr ⟨fun _ _ => (g.depthFirst edges owner ids seen).grows old, listed⟩, deeper⟩
  | case3 owner seen id ids new missing ih =>
    obtain ⟨listed, deeper⟩ := ih
    refine ⟨List.forall_mem_cons.mpr ⟨fun b found => ?_, listed⟩, deeper⟩
    cases missing.symm.trans found
  | case4 owner seen id ids new r found below rest ihBelow ihRest =>
    obtain ⟨listedBelow, deeperBelow⟩ := ihBelow
    obtain ⟨listedRest, deeperRest⟩ := ihRest
    constructor
    · exact List.forall_mem_cons.mpr ⟨fun _ _ => rest.grows (below.grows (List.mem_cons_self ..)), listedRest⟩
    · rw [Traversal.records_meet]
      refine List.forall_mem_cons.mpr ⟨fun id' edge b here => rest.grows (listedBelow id' edge b here), ?_⟩
      exact List.forall_mem_append.mpr
        ⟨fun a met id' edge b here => rest.grows (deeperBelow a met id' edge b here), deeperRest⟩

theorem get?_of_mem_records {r : TypeRecord} (met : r ∈ (g.depthFirst edges owner ids seen).records) :
    g.get? r.id = some r := by
  obtain ⟨id, _, b, here, path⟩ := reached_of_mem_records met
  cases path with
  | refl => rwa [id_of_get? here]
  | tail _ last => exact last.get?_id

/-- What is seen in the end and not before is met. -/
theorem mem_records_of_visited {id : TypeId} {r : TypeRecord} (found : g.get? id = some r) (new : id ∉ seen)
    (visited : id ∈ (g.depthFirst edges owner ids seen).visited) :
    r ∈ (g.depthFirst edges owner ids seen).records := by
  obtain ⟨s, met, rfl⟩ := List.mem_map.mp ((mem_visited_iff.mp visited).resolve_left new)
  cases (get?_of_mem_records met).symm.trans found
  exact met

/-- From a start with nothing seen a traversal meets just what the listed ids lead to. -/
theorem mem_records_iff {r : TypeRecord} :
    r ∈ (g.depthFirst edges owner ids []).records ↔
      ∃ id ∈ ids, ∃ b, g.get? id = some b ∧ ReflTransGen (g.Leads edges) b r := by
  refine ⟨reached_of_mem_records, ?_⟩
  rintro ⟨id, listed, b, here, path⟩
  obtain ⟨first, deeper⟩ := g.depthFirst_settles edges owner ids []
  induction path with
  | refl => exact mem_records_of_visited here List.not_mem_nil (first id listed b here)
  | tail _ edge ih =>
    obtain ⟨id', base, found⟩ := edge
    exact mem_records_of_visited found List.not_mem_nil (deeper _ ih id' base _ found)

end Traversals

end Graph
end QueryShapes
