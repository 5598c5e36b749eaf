import QueryShapes.Proofs.BaseOrder
import QueryShapes.Proofs.Outcome
import QueryShapes.Shape.Inheritance

namespace QueryShapes
open Relation

/-- How a base is met while bases are collected: a kept one, an elided one after its
own bases, or an elided one that was met before. -/
inductive Meeting
  | kept (base : TypeRecord)
  | elided (base : TypeRecord)
  | again (base : TypeRecord)
deriving DecidableEq, Repr

namespace Meeting

def base : Meeting → TypeRecord
  | kept base | elided base | again base => base

/-- Only what is met again goes unused. -/
def inheritance? : Meeting → Option Inheritance
  | kept base => some (.kept base)
  | elided base => some (.elided base)
  | again _ => none

end Meeting

namespace Scope

/-- The walks over listed bases, with the ids of the elided ones met before and after. -/
inductive Walks (s : Scope) : List TypeId → List TypeId → List Meeting → List TypeId → Prop
  | nil {seen} : Walks s [] seen [] seen
  | kept {id ids seen base rest seen'} :
      s.graph.get? id = some base → s.keepsShape base = true → Walks s ids seen rest seen' →
      Walks s (id :: ids) seen (.kept base :: rest) seen'
  | again {id ids seen base rest seen'} :
      s.graph.get? id = some base → s.keepsShape base = false → base.id ∈ seen → Walks s ids seen rest seen' →
      Walks s (id :: ids) seen (.again base :: rest) seen'
  | elided {id ids seen base below between rest seen'} :
      s.graph.get? id = some base → s.keepsShape base = false → base.id ∉ seen →
      Walks s base.bases (base.id :: seen) below between → Walks s ids between rest seen' →
      Walks s (id :: ids) seen (below ++ .elided base :: rest) seen'

theorem Walks.grows {s : Scope} {ids seen seen' : List TypeId} {meetings : List Meeting}
    (walk : s.Walks ids seen meetings seen') : seen ⊆ seen' := by
  induction walk with
  | nil => exact List.Subset.refl _
  | kept _ _ _ ih => exact ih
  | again _ _ _ _ ih => exact ih
  | elided _ _ _ _ _ below rest =>
    exact List.Subset.trans (List.subset_cons_self _ _) (List.Subset.trans below rest)

theorem Walks.reached {s : Scope} {ids seen seen' : List TypeId} {meetings : List Meeting}
    (walk : s.Walks ids seen meetings seen') {m : Meeting} (met : m ∈ meetings) :
    ∃ id ∈ ids, ∃ b, s.graph.get? id = some b ∧ ReflTransGen s.graph.IsBase b m.base := by
  induction walk with
  | nil => cases met
  | kept found _ _ ih | again found _ _ _ ih =>
    rcases List.mem_cons.mp met with rfl | met
    · exact ⟨_, List.mem_cons_self .., _, found, .refl⟩
    · obtain ⟨id, listed, b, found, path⟩ := ih met
      exact ⟨id, List.mem_cons_of_mem _ listed, b, found, path⟩
  | @elided id ids seen base below between rest seen' found _ _ _ _ ihBelow ihRest =>
    rcases List.mem_append.mp met with met | met
    · obtain ⟨id', listed, b, found', path⟩ := ihBelow met
      exact ⟨id, List.mem_cons_self .., base, found, .head ⟨id', listed, found'⟩ path⟩
    · rcases List.mem_cons.mp met with rfl | met
      · exact ⟨id, List.mem_cons_self .., base, found, .refl⟩
      · obtain ⟨id, listed, b, found, path⟩ := ihRest met
        exact ⟨id, List.mem_cons_of_mem _ listed, b, found, path⟩

theorem Walks.keepsShape_of_kept {s : Scope} {ids seen seen' : List TypeId} {meetings : List Meeting}
    (walk : s.Walks ids seen meetings seen') {base : TypeRecord} (met : .kept base ∈ meetings) :
    s.keepsShape base = true := by
  induction walk with
  | nil => cases met
  | kept _ keeps _ ih =>
    rcases List.mem_cons.mp met with same | met
    · cases same
      exact keeps
    · exact ih met
  | again _ _ _ _ ih => exact ih (List.mem_of_ne_of_mem (by simp) met)
  | elided _ _ _ _ _ ihBelow ihRest =>
    rcases List.mem_append.mp met with met | met
    · exact ihBelow met
    · exact ihRest (List.mem_of_ne_of_mem (by simp) met)

theorem Walks.elided_of_mem_seen {s : Scope} {ids seen seen' : List TypeId} {meetings : List Meeting}
    (walk : s.Walks ids seen meetings seen') {base : TypeRecord} (found : s.graph.get? base.id = some base)
    (visited : base.id ∈ seen') : base.id ∈ seen ∨ .elided base ∈ meetings := by
  induction walk with
  | nil => exact Or.inl visited
  | kept _ _ _ ih | again _ _ _ _ ih => exact (ih visited).imp_right (List.mem_cons_of_mem _)
  | @elided id ids seen here below between rest seen' found' _ _ _ _ ihBelow ihRest =>
    rcases ihRest visited with before | later
    · rcases ihBelow before with atOnce | deeper
      · rcases List.mem_cons.mp atOnce with same | old
        · rw [same, Graph.id_of_get? found', found'] at found
          cases found
          exact Or.inr (by simp)
        · exact Or.inl old
      · exact Or.inr (List.mem_append_left _ deeper)
    · exact Or.inr (by simp [later])

/-- A base is taken care of once it is met as a kept one or seen as an elided one. -/
def Settles (meetings : List Meeting) (seen : List TypeId) (base : TypeRecord) : Prop :=
  .kept base ∈ meetings ∨ base.id ∈ seen

theorem Settles.mono {meetings meetings' : List Meeting} {seen seen' : List TypeId} {base : TypeRecord}
    (settled : Settles meetings seen base) (more : meetings ⊆ meetings') (further : seen ⊆ seen') :
    Settles meetings' seen' base :=
  settled.imp (@more _) (@further _)

/-- A walk leaves nothing behind: neither what is listed nor the bases of what it elides. -/
theorem Walks.settles {s : Scope} {ids seen seen' : List TypeId} {meetings : List Meeting}
    (walk : s.Walks ids seen meetings seen') :
    (∀ id ∈ ids, ∀ b, s.graph.get? id = some b → Settles meetings seen' b) ∧
      ∀ b, .elided b ∈ meetings → ∀ c, s.graph.IsBase b c → Settles meetings seen' c := by
  induction walk with
  | nil => simp
  | @kept id ids seen base rest seen' found _ _ ih =>
    obtain ⟨listed, deeper⟩ := ih
    have more : rest ⊆ .kept base :: rest := List.subset_cons_self _ _
    constructor
    · refine List.forall_mem_cons.mpr ⟨fun b found' => ?_, fun id member b found' => ?_⟩
      · cases found.symm.trans found'
        exact Or.inl (List.mem_cons_self ..)
      · exact (listed id member b found').mono more (List.Subset.refl _)
    · intro b met c edge
      exact (deeper b (List.mem_of_ne_of_mem (by simp) met) c edge).mono more (List.Subset.refl _)
  | @again id ids seen base rest seen' found _ old walk ih =>
    obtain ⟨listed, deeper⟩ := ih
    have more : rest ⊆ .again base :: rest := List.subset_cons_self _ _
    constructor
    · refine List.forall_mem_cons.mpr ⟨fun b found' => ?_, fun id member b found' => ?_⟩
      · cases found.symm.trans found'
        exact Or.inr (walk.grows old)
      · exact (listed id member b found').mono more (List.Subset.refl _)
    · intro b met c edge
      exact (deeper b (List.mem_of_ne_of_mem (by simp) met) c edge).mono more (List.Subset.refl _)
  | @elided id ids seen base below between rest seen' found _ _ walkBelow walk ihBelow ihRest =>
    obtain ⟨listedBelow, deeperBelow⟩ := ihBelow
    obtain ⟨listed, deeper⟩ := ihRest
    have moreBelow : below ⊆ below ++ .elided base :: rest := List.subset_append_left _ _
    have more : rest ⊆ below ++ .elided base :: rest :=
      List.subset_append_of_subset_right _ (List.subset_cons_self _ _)
    constructor
    · refine List.forall_mem_cons.mpr ⟨fun b found' => ?_, fun id member b found' => ?_⟩
      · cases found.symm.trans found'
        exact Or.inr (walk.grows (walkBelow.grows (List.mem_cons_self ..)))
      · exact (listed id member b found').mono more (List.Subset.refl _)
    · intro b met c edge
      rcases List.mem_append.mp met with met | met
      · exact (deeperBelow b met c edge).mono moreBelow walk.grows
      · rcases List.mem_cons.mp met with same | met
        · cases same
          obtain ⟨id', base', found'⟩ := edge
          exact (listedBelow id' base' c found').mono moreBelow walk.grows
        · exact (deeper b met c edge).mono more (List.Subset.refl _)

/-- What the bases of a type lead to is met, or is inherited through a kept base. -/
theorem Walks.covers {s : Scope} {r : TypeRecord} {meetings : List Meeting} {seen : List TypeId}
    (walk : s.Walks r.bases [] meetings seen) {b : TypeRecord} (path : TransGen s.graph.IsBase r b) :
    .elided b ∈ meetings ∨ ∃ k, .kept k ∈ meetings ∧ ReflTransGen s.graph.IsBase k b := by
  obtain ⟨listed, deeper⟩ := walk.settles
  have met {b : TypeRecord} {id : TypeId} (found : s.graph.get? id = some b) (settled : Settles meetings seen b) :
      .elided b ∈ meetings ∨ ∃ k, .kept k ∈ meetings ∧ ReflTransGen s.graph.IsBase k b := by
    rcases settled with kept | visited
    · exact Or.inr ⟨b, kept, .refl⟩
    · have own : s.graph.get? b.id = some b := by rwa [Graph.id_of_get? found]
      exact Or.inl ((walk.elided_of_mem_seen own visited).resolve_left List.not_mem_nil)
  induction path with
  | single edge =>
    obtain ⟨id, base, found⟩ := edge
    exact met found (listed id base _ found)
  | tail _ edge ih =>
    rcases ih with elided | ⟨k, kept, path⟩
    · obtain ⟨id, base, found⟩ := edge
      exact met found (deeper _ elided _ ⟨id, base, found⟩)
    · exact Or.inr ⟨k, kept, path.tail edge⟩

/-- What is collected before the pending visits comes from one walk over the ids. -/
theorem exists_walks (s : Scope) (name : String) (ids seen : List TypeId) (pending : List BaseVisit)
    {found : List Inheritance} (collected : s.inherit (ids.map (.enter name) ++ pending) seen = .ok found) :
    ∃ meetings seen' rest, s.Walks ids seen meetings seen' ∧ s.inherit pending seen' = .ok rest ∧
      found = meetings.filterMap Meeting.inheritance? ++ rest := by
  match ids with
  | [] => exact ⟨[], seen, found, .nil, collected, rfl⟩
  | id :: ids =>
    rw [List.map_cons, List.cons_append, inherit] at collected
    split at collected
    · cases collected
    · rename_i base resolved
      have here := Graph.get?_of_resolve resolved
      split at collected
      · rename_i kept
        obtain ⟨later, next, rfl⟩ := map_eq_ok_iff.mp collected
        obtain ⟨meetings, seen', rest, walk, after, rfl⟩ := exists_walks s name ids seen pending next
        exact ⟨_, seen', rest, .kept here kept walk, after, rfl⟩
      · rename_i other
        have elided : s.keepsShape base = false := by simpa using other
        split at collected
        · rename_i old
          obtain ⟨meetings, seen', rest, walk, after, rfl⟩ := exists_walks s name ids seen pending collected
          exact ⟨_, seen', rest, .again here elided old walk, after, rfl⟩
        · rename_i new
          have member : base.id ∈ s.graph.ids := List.mem_map_of_mem (Graph.mem_of_get? here)
          have fewer : fresh s.graph.ids (base.id :: seen) < fresh s.graph.ids seen := fresh_cons_lt member new
          obtain ⟨below, between, upper, walkBelow, left, rfl⟩ :=
            exists_walks s base.name base.bases (base.id :: seen) _ collected
          have fewer' : fresh s.graph.ids between < fresh s.graph.ids seen :=
            Nat.lt_of_le_of_lt (fresh_le_of_subset _ walkBelow.grows) fewer
          rw [inherit] at left
          obtain ⟨later, next, rfl⟩ := map_eq_ok_iff.mp left
          obtain ⟨meetings, seen', rest, walk, after, rfl⟩ := exists_walks s name ids between pending next
          refine ⟨_, seen', rest, .elided here elided new walkBelow walk, after, ?_⟩
          simp [Meeting.inheritance?]
termination_by (fresh s.graph.ids seen, ids.length)

/-- A walk over the ids is what is collected before the pending visits. -/
theorem Walks.inherit_append {s : Scope} {ids seen seen' : List TypeId} {meetings : List Meeting}
    (walk : s.Walks ids seen meetings seen') (name : String) (pending : List BaseVisit) :
    s.inherit (ids.map (.enter name) ++ pending) seen =
      (s.inherit pending seen').map (meetings.filterMap Meeting.inheritance? ++ ·) := by
  induction walk generalizing name pending with
  | nil => exact (map_id_eq _).symm
  | kept found kept _ ih =>
    rw [List.map_cons, List.cons_append, inherit, Graph.resolve_eq_ok_iff.mpr found]
    simp only [kept, ↓reduceIte, ih, map_map]
    rfl
  | again found elided old _ ih =>
    rw [List.map_cons, List.cons_append, inherit, Graph.resolve_eq_ok_iff.mpr found]
    simp only [elided, Bool.false_eq_true, old, ↓reduceIte, ↓reduceDIte, ih]
    rfl
  | elided found elided new _ _ ihBelow ihRest =>
    rw [List.map_cons, List.cons_append, inherit, Graph.resolve_eq_ok_iff.mpr found]
    simp only [elided, Bool.false_eq_true, new, ↓reduceIte, ↓reduceDIte, ihBelow]
    rw [inherit, ihRest, map_map, map_map]
    simp [Meeting.inheritance?]

theorem inheritances_of_walks {s : Scope} {r : TypeRecord} {meetings : List Meeting} {seen : List TypeId}
    (walk : s.Walks r.bases [] meetings seen) :
    s.inheritances r = .ok (meetings.filterMap Meeting.inheritance?) := by
  have collected := walk.inherit_append r.name []
  rw [List.append_nil, inherit] at collected
  rw [inheritances, collected]
  simp [Except.map]

theorem walks_of_inheritances {s : Scope} {r : TypeRecord} {found : List Inheritance}
    (collected : s.inheritances r = .ok found) :
    ∃ meetings seen, s.Walks r.bases [] meetings seen ∧ found = meetings.filterMap Meeting.inheritance? := by
  have collected : s.inherit (r.bases.map (.enter r.name) ++ []) [] = .ok found := by rwa [List.append_nil]
  obtain ⟨meetings, seen, rest, walk, nothing, rfl⟩ := exists_walks s r.name r.bases [] [] collected
  rw [inherit] at nothing
  cases nothing
  exact ⟨meetings, seen, walk, List.append_nil _⟩

end Scope
end QueryShapes
