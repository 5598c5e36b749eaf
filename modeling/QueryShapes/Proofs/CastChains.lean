import QueryShapes.Cast.Closure
import Mathlib.Logic.Relation

namespace QueryShapes
open Relation

/-- A path from a start stays among what is visited, if no edge leads out of that. -/
theorem eq_or_visited_of_path {α : Type} {edge : α → α → Prop} {start a : α} {visited : α → Prop}
    (first : ∀ b, edge start b → b = start ∨ visited b)
    (deeper : ∀ b, visited b → ∀ c, edge b c → c = start ∨ visited c) (path : ReflTransGen edge start a) :
    a = start ∨ visited a := by
  induction path with
  | refl => exact Or.inl rfl
  | @tail before a _ last ih =>
    rcases ih with rfl | there
    · exact first a last
    · exact deeper before there a last

namespace CastMap

/-- The map lists a cast from one type to the other. -/
def Casts (m : CastMap) (source target : TypeId) : Prop :=
  target ∈ m.targets source

/-- A chain of casts leads from one type to the other. Every type can be cast to itself,
by no cast. -/
def CanCast (m : CastMap) : TypeId → TypeId → Prop :=
  ReflTransGen m.Casts

/-- A chain to another type has a cast in it. -/
theorem canCast_iff_transGen {m : CastMap} {source target : TypeId} (other : source ≠ target) :
    m.CanCast source target ↔ TransGen m.Casts source target := by
  rw [CanCast, reflTransGen_iff_eq_or_transGen]
  exact or_iff_right (Ne.symm other)

theorem mem_reach {m : CastMap} {queue seen : List TypeId} {target : TypeId}
    (found : target ∈ m.reach queue seen) : target ∉ seen ∧ ∃ id ∈ queue, m.CanCast id target := by
  fun_induction reach m queue seen with
  | case1 => cases found
  | case2 id queue seen old ih =>
    obtain ⟨new, start, queued, path⟩ := ih found
    exact ⟨new, start, List.mem_cons_of_mem _ queued, path⟩
  | case3 id queue seen new ih =>
    rcases List.mem_cons.mp found with rfl | later
    · exact ⟨new, target, List.mem_cons_self .., .refl⟩
    · obtain ⟨fresh, start, queued, path⟩ := ih later
      have unseen : target ∉ seen := fun old => fresh (List.mem_cons_of_mem _ old)
      rcases List.mem_append.mp queued with queued | next
      · exact ⟨unseen, start, List.mem_cons_of_mem _ queued, path⟩
      · exact ⟨unseen, id, List.mem_cons_self .., .head next path⟩

/-- A traversal leaves nothing behind: neither what is queued nor what the types that it
finds can be cast to. -/
theorem reach_settles (m : CastMap) (queue seen : List TypeId) :
    (∀ id ∈ queue, id ∈ seen ∨ id ∈ m.reach queue seen) ∧
      ∀ source ∈ m.reach queue seen, ∀ target, m.Casts source target →
        target ∈ seen ∨ target ∈ m.reach queue seen := by
  fun_induction reach m queue seen with
  | case1 => simp
  | case2 id queue seen old ih =>
    obtain ⟨queued, deeper⟩ := ih
    exact ⟨List.forall_mem_cons.mpr ⟨Or.inl old, queued⟩, deeper⟩
  | case3 id queue seen new ih =>
    obtain ⟨queued, deeper⟩ := ih
    have settled {target : TypeId} (late : target ∈ id :: seen ∨
        target ∈ m.reach (queue ++ m.targets id) (id :: seen)) :
        target ∈ seen ∨ target ∈ id :: m.reach (queue ++ m.targets id) (id :: seen) := by
      rcases late with atOnce | later
      · rcases List.mem_cons.mp atOnce with rfl | old
        · exact Or.inr (List.mem_cons_self ..)
        · exact Or.inl old
      · exact Or.inr (List.mem_cons_of_mem _ later)
    constructor
    · intro target member
      rcases List.mem_cons.mp member with rfl | member
      · exact Or.inr (List.mem_cons_self ..)
      · exact settled (queued target (List.mem_append_left _ member))
    · intro source found target cast
      rcases List.mem_cons.mp found with rfl | later
      · exact settled (queued target (List.mem_append_right _ cast))
      · exact settled (deeper source later target cast)

theorem mem_chained_iff {m : CastMap} {source target : TypeId} :
    target ∈ m.chained source ↔ target ≠ source ∧ m.CanCast source target := by
  constructor
  · intro found
    obtain ⟨other, next, listed, path⟩ := mem_reach found
    exact ⟨fun same => other (same ▸ List.mem_singleton_self _), .head listed path⟩
  · rintro ⟨other, path⟩
    obtain ⟨queued, deeper⟩ := m.reach_settles (m.targets source) [source]
    have visited : target = source ∨ target ∈ m.chained source := by
      refine eq_or_visited_of_path (fun id cast => ?_) (fun id there next cast => ?_) path
      · exact (queued id cast).imp_left List.mem_singleton.mp
      · exact (deeper id there next cast).imp_left List.mem_singleton.mp
    exact visited.resolve_left other

theorem lookup_map_key (f : TypeId → List TypeId) (keys : List TypeId) (source : TypeId) :
    (keys.map fun key => (key, f key)).lookup source = if source ∈ keys then some (f source) else none := by
  induction keys with
  | nil => rfl
  | cons key keys ih =>
    by_cases here : source = key
    · simp [here]
    · have passed : (source == key) = false := by simpa using here
      rw [List.map_cons, List.lookup_cons, passed, ih]
      simp only [List.mem_cons, here, false_or]

theorem edges_closure (m : CastMap) : m.closure.edges = m.sources.map fun source => (source, m.chained source) := by
  simp [closure, sources, Function.comp_def]

/-- The closure has a cast for every chain that does not end where it starts. -/
theorem targets_closure (m : CastMap) (source : TypeId) : m.closure.targets source = m.chained source := by
  rw [targets, edges_closure, lookup_map_key]
  by_cases listed : source ∈ m.sources
  · rw [if_pos listed, Option.getD_some]
  · rw [if_neg listed, Option.getD_none, chained, targets_of_not_mem listed, reach]

theorem mem_targets_closure_iff {m : CastMap} {source target : TypeId} :
    target ∈ m.closure.targets source ↔ target ≠ source ∧ m.CanCast source target := by
  rw [targets_closure, mem_chained_iff]

end CastMap
end QueryShapes
