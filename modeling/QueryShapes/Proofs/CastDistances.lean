import QueryShapes.Proofs.CastChains
import Mathlib.Data.List.Nodup
import Mathlib.Order.Lattice.Nat

namespace QueryShapes.CastMap
open Relation

/-- A chain of so many casts leads from the source to a type. -/
inductive CastsIn (m : CastMap) (source : TypeId) : Nat → TypeId → Prop
  | none : CastsIn m source 0 source
  | next {n id target} : CastsIn m source n id → m.Casts id target → CastsIn m source (n + 1) target

/-- How many casts the shortest chain between two types has. -/
noncomputable def distance (m : CastMap) (source target : TypeId) : Nat :=
  sInf {n | m.CastsIn source n target}

variable {m : CastMap} {source : TypeId}

theorem canCast_iff_castsIn {target : TypeId} : m.CanCast source target ↔ ∃ n, m.CastsIn source n target := by
  constructor
  · intro path
    induction path with
    | refl => exact ⟨0, .none⟩
    | tail _ last ih =>
      obtain ⟨n, chain⟩ := ih
      exact ⟨n + 1, chain.next last⟩
  · rintro ⟨n, chain⟩
    induction chain with
    | none => exact .refl
    | next _ last ih => exact ih.tail last

theorem CastsIn.distance_le {n : Nat} {target : TypeId} (chain : m.CastsIn source n target) :
    m.distance source target ≤ n :=
  Nat.sInf_le chain

theorem le_distance {k : Nat} {target : TypeId} (path : m.CanCast source target)
    (long : ∀ n < k, ¬m.CastsIn source n target) : k ≤ m.distance source target := by
  have shortest : m.CastsIn source (m.distance source target) target := Nat.sInf_mem (canCast_iff_castsIn.mp path)
  by_contra less
  exact long _ (by omega) shortest

/-- How far a breadth-first traversal is. What it has seen includes all types nearer than
`level`, the next types in the queue are at this level, and behind them stand targets of
those that were visited. -/
structure IsAtLevel (m : CastMap) (source : TypeId) (level : Nat) (now later seen : List TypeId) : Prop where
  now_castsIn : ∀ id ∈ now, m.CastsIn source level id
  later_castsIn : ∀ id ∈ later, m.CastsIn source (level + 1) id
  nearer : ∀ n < level, ∀ id, m.CastsIn source n id → id ∈ seen
  complete : ∀ id, m.CastsIn source level id → id ∈ seen ∨ id ∈ now
  followed : ∀ id ∈ seen, ∀ target, m.Casts id target → target ∈ seen ∨ target ∈ now ∨ target ∈ later

namespace IsAtLevel

variable {level : Nat} {id : TypeId} {now later seen : List TypeId}

theorem start (m : CastMap) (source : TypeId) : m.IsAtLevel source 0 [] (m.targets source) [source] where
  now_castsIn := by simp
  later_castsIn := fun _ listed => .next .none listed
  nearer := by simp
  complete := by
    intro id chain
    cases chain
    exact Or.inl (List.mem_singleton_self _)
  followed := by
    intro id member target cast
    cases List.mem_singleton.mp member
    exact Or.inr (Or.inr cast)

/-- A type that was seen before is passed over. -/
theorem skip (here : m.IsAtLevel source level (id :: now) later seen) (old : id ∈ seen) :
    m.IsAtLevel source level now later seen where
  now_castsIn := fun id member => here.now_castsIn id (List.mem_cons_of_mem _ member)
  later_castsIn := here.later_castsIn
  nearer := here.nearer
  complete := by
    intro target chain
    rcases here.complete target chain with seen | queued
    · exact Or.inl seen
    · rcases List.mem_cons.mp queued with rfl | behind
      · exact Or.inl old
      · exact Or.inr behind
  followed := by
    intro source visited target cast
    rcases here.followed source visited target cast with seen | queued | later
    · exact Or.inl seen
    · rcases List.mem_cons.mp queued with rfl | behind
      · exact Or.inl old
      · exact Or.inr (Or.inl behind)
    · exact Or.inr (Or.inr later)

/-- A new type is seen, and its targets join the queue. -/
theorem visit (here : m.IsAtLevel source level (id :: now) later seen) :
    m.IsAtLevel source level now (later ++ m.targets id) (id :: seen) where
  now_castsIn := fun id member => here.now_castsIn id (List.mem_cons_of_mem _ member)
  later_castsIn := by
    intro target queued
    rcases List.mem_append.mp queued with before | cast
    · exact here.later_castsIn target before
    · exact .next (here.now_castsIn id (List.mem_cons_self ..)) cast
  nearer := fun n near target chain => List.mem_cons_of_mem _ (here.nearer n near target chain)
  complete := by
    intro target chain
    rcases here.complete target chain with seen | queued
    · exact Or.inl (List.mem_cons_of_mem _ seen)
    · rcases List.mem_cons.mp queued with rfl | behind
      · exact Or.inl (List.mem_cons_self ..)
      · exact Or.inr behind
  followed := by
    intro source visited target cast
    rcases List.mem_cons.mp visited with rfl | visited
    · exact Or.inr (Or.inr (List.mem_append_right _ cast))
    · rcases here.followed source visited target cast with seen | queued | later
      · exact Or.inl (List.mem_cons_of_mem _ seen)
      · rcases List.mem_cons.mp queued with rfl | behind
        · exact Or.inl (List.mem_cons_self ..)
        · exact Or.inr (Or.inl behind)
      · exact Or.inr (Or.inr (List.mem_append_left _ later))

/-- Once all types of a level are seen, the queue holds those of the next. -/
theorem advance (here : m.IsAtLevel source level [] later seen) : m.IsAtLevel source (level + 1) later [] seen where
  now_castsIn := here.later_castsIn
  later_castsIn := by simp
  nearer := by
    intro n near id chain
    rcases Nat.lt_succ_iff_lt_or_eq.mp near with nearer | rfl
    · exact here.nearer n nearer id chain
    · exact (here.complete id chain).resolve_right List.not_mem_nil
  complete := by
    intro target chain
    cases chain with
    | next before cast =>
      have visited := (here.complete _ before).resolve_right List.not_mem_nil
      exact (here.followed _ visited target cast).imp_right fun queued => queued.resolve_left List.not_mem_nil
  followed := by
    intro source visited target cast
    rcases here.followed source visited target cast with seen | nowhere | later
    · exact Or.inl seen
    · cases nowhere
    · exact Or.inr (Or.inl later)

/-- The first in a queue is at the present level, or at the next one. -/
theorem of_cons {queue : List TypeId} (here : m.IsAtLevel source level now later seen)
    (parts : id :: queue = now ++ later) :
    ∃ level' now' later', m.IsAtLevel source level' (id :: now') later' seen ∧ queue = now' ++ later' := by
  cases now with
  | nil =>
    cases parts
    exact ⟨level + 1, queue, [], here.advance, (List.append_nil _).symm⟩
  | cons id' now =>
    cases parts
    exact ⟨level, now, later, here, rfl⟩

end IsAtLevel

/-- A traversal lists near types first. -/
theorem pairwise_reach {level : Nat} {queue now later seen : List TypeId} (parts : queue = now ++ later)
    (here : m.IsAtLevel source level now later seen) :
    (m.reach queue seen).Pairwise fun id id' => m.distance source id ≤ m.distance source id' := by
  fun_induction reach m queue seen generalizing level now later with
  | case1 => exact .nil
  | case2 id queue seen old ih =>
    obtain ⟨_, _, _, front, rest⟩ := here.of_cons parts
    exact ih rest (front.skip old)
  | case3 id queue seen new ih =>
    obtain ⟨level', now', later', front, rest⟩ := here.of_cons parts
    refine List.pairwise_cons.mpr ⟨fun target found => ?_, ?_⟩
    · obtain ⟨unseen, start, queued, path⟩ := mem_reach found
      have chain := front.now_castsIn id (List.mem_cons_self ..)
      have fromSource : m.CanCast source start := by
        rw [rest] at queued
        simp only [List.mem_append] at queued
        rcases queued with (next | behind) | cast
        · exact canCast_iff_castsIn.mpr ⟨_, front.now_castsIn start (List.mem_cons_of_mem _ next)⟩
        · exact canCast_iff_castsIn.mpr ⟨_, front.later_castsIn start behind⟩
        · exact canCast_iff_castsIn.mpr ⟨_, chain.next cast⟩
      have far := le_distance (fromSource.trans path) fun n near short =>
        unseen (List.mem_cons_of_mem _ (front.nearer n near target short))
      exact chain.distance_le.trans far
    · exact ih (by rw [rest, List.append_assoc]) front.visit

theorem nodup_reach (m : CastMap) (queue seen : List TypeId) : (m.reach queue seen).Nodup := by
  fun_induction reach m queue seen with
  | case1 => exact .nil
  | case2 id queue seen old ih => exact ih
  | case3 id queue seen new ih =>
    exact List.nodup_cons.mpr ⟨fun found => (mem_reach found).1 (List.mem_cons_self ..), ih⟩

theorem reach_of_subset {queue seen : List TypeId} (old : queue ⊆ seen) : m.reach queue seen = [] := by
  induction queue with
  | nil => rw [reach]
  | cons id queue ih =>
    obtain ⟨first, rest⟩ := List.cons_subset.mp old
    rw [reach, dif_pos first, ih rest]

/-- A queue that begins with all that it leads to is the traversal itself. -/
theorem reach_append_of_settled {found rest seen : List TypeId} (distinct : found.Nodup)
    (new : ∀ id ∈ found, id ∉ seen) (old : ∀ id ∈ rest, id ∈ seen ∨ id ∈ found)
    (settled : ∀ id ∈ found, ∀ target, m.Casts id target → target ∈ seen ∨ target ∈ found) :
    m.reach (found ++ rest) seen = found := by
  induction found generalizing rest seen with
  | nil => exact reach_of_subset fun id member => (old id member).resolve_right List.not_mem_nil
  | cons id found ih =>
    obtain ⟨apart, distinct⟩ := List.nodup_cons.mp distinct
    have moved {target : TypeId} (known : target ∈ seen ∨ target ∈ id :: found) :
        target ∈ id :: seen ∨ target ∈ found := by
      simp only [List.mem_cons] at known ⊢
      tauto
    rw [List.cons_append, reach, dif_neg (new id (List.mem_cons_self ..)), List.append_assoc]
    refine congrArg (id :: ·) (ih distinct ?_ ?_ ?_)
    · intro target member again
      rcases List.mem_cons.mp again with rfl | seen
      · exact apart member
      · exact new target (List.mem_cons_of_mem _ member) seen
    · intro target member
      rcases List.mem_append.mp member with behind | cast
      · exact moved (old target behind)
      · exact moved (settled id (List.mem_cons_self ..) target cast)
    · exact fun next member target cast => moved (settled next (List.mem_cons_of_mem _ member) target cast)

/-- In the closure a source reaches the same types as before, in the same order. -/
theorem chained_closure (m : CastMap) (source : TypeId) : m.closure.chained source = m.chained source := by
  rw [chained, targets_closure]
  have settled : m.closure.reach (m.chained source ++ []) [source] = m.chained source :=
    reach_append_of_settled (m.nodup_reach _ _) ?_ (by simp) ?_
  · rwa [List.append_nil] at settled
  · intro target found itself
    exact (mem_chained_iff.mp found).1 (List.mem_singleton.mp itself)
  · intro id found target cast
    rw [List.mem_singleton, mem_chained_iff]
    by_cases itself : target = source
    · exact Or.inl itself
    · have path := (mem_chained_iff.mp found).2.trans (mem_targets_closure_iff.mp cast).2
      exact Or.inr ⟨itself, path⟩

/-- The closure casts a type to each other type that a chain of casts leads to. It keeps
the sources in their order and lists the targets of each once, near ones first. Closing it
again changes nothing. -/
theorem closure_lists_chains (m : CastMap) :
    (∀ source target, m.closure.isCastable source target = true ↔
      source ≠ target ∧ TransGen m.Casts source target) ∧
    m.closure.sources = m.sources ∧
    (∀ source targets, (source, targets) ∈ m.closure.edges →
      targets.Nodup ∧ targets.Pairwise fun id id' => m.distance source id ≤ m.distance source id') ∧
    m.closure.closure = m.closure := by
  refine ⟨fun source target => ?_, ?_, fun source targets listed => ?_, ?_⟩
  · rw [isCastable, decide_eq_true_iff, mem_targets_closure_iff, ne_comm]
    exact and_congr_right canCast_iff_transGen
  · simp [sources, closure, Function.comp_def]
  · obtain ⟨⟨_, _⟩, _, same⟩ := List.mem_map.mp listed
    cases same
    exact ⟨m.nodup_reach _ _, pairwise_reach rfl (.start m source)⟩
  · refine congrArg CastMap.mk ?_
    have edges : m.closure.edges = m.edges.map fun entry => (entry.1, m.chained entry.1) := rfl
    rw [edges, List.map_map]
    exact List.map_congr_left fun entry _ => congrArg (Prod.mk entry.1) (m.chained_closure entry.1)

end QueryShapes.CastMap
