import QueryShapes.Proofs.AccessorTexts
import QueryShapes.Proofs.Emission
import QueryShapes.Proofs.References

namespace QueryShapes

namespace Scope

variable {s : Scope}

/-- An object type of the graph that is emitted. -/
def KeepsShapeNamed (s : Scope) (symbol : String) : Prop :=
  ∃ r ∈ s.graph.records, s.keepsShape r = true ∧ symbolOf r = .ok symbol

theorem mem_records_of_flatten {g : Graph} {junction : Junction} {pending : List (String × TypeId)}
    {seen : List TypeId} {members : List TypeRecord} (flattened : g.flatten junction pending seen = .ok members) :
    ∀ r ∈ members, r ∈ g.records := by
  fun_induction Graph.flatten g junction pending seen generalizing members with
  | case1 =>
    cases flattened
    exact List.forall_mem_nil _
  | case2 _ _ _ _ _ ih => exact ih flattened
  | case3 | case4 => cases flattened
  | case5 _ _ _ _ _ _ _ _ _ _ ih => exact ih flattened
  | case6 owner id pending seen new member o found other plain ih =>
    obtain ⟨others, later, rfl⟩ := map_eq_ok_iff.mp flattened
    exact List.forall_mem_cons.mpr ⟨Graph.mem_of_get? (Graph.get?_of_resolveObject found), ih later⟩

theorem mem_records_of_groups {g : Graph} {target : TypeRecord} {o : ObjectType} {groups : List (List TypeRecord)}
    (member : target ∈ g.records) (grouped : g.groups target o = .ok groups) :
    ∀ r ∈ groups.flatten, r ∈ g.records := by
  unfold Graph.groups at grouped
  split at grouped
  · obtain ⟨members, flattened, rfl⟩ := map_eq_ok_iff.mp grouped
    simpa using mem_records_of_flatten flattened
  · split at grouped
    · obtain ⟨members, flattened, rfl⟩ := map_eq_ok_iff.mp grouped
      simpa using mem_records_of_flatten flattened
    · cases grouped
      simpa using member

/-- A link is unknown, or leads to emitted shapes. -/
theorem linkTarget_cases {referencing : String} {id : TypeId} {target : Target}
    (resolved : s.linkTarget referencing id = .ok target) :
    target = .unknownLink ∨ ∃ groups, target = .link groups ∧
      ∀ symbol ∈ groups.flatten, s.KeepsShapeNamed symbol := by
  unfold linkTarget at resolved
  split at resolved
  · cases resolved
  · rename_i found
    split at resolved
    · cases resolved
    · rename_i grouped
      split at resolved
      · rename_i kept
        simp only [mapError_eq_ok_iff, map_eq_ok_iff, mapM_eq_ok_iff] at resolved
        obtain ⟨symbols, named, rfl⟩ := resolved
        refine Or.inr ⟨symbols, rfl, fun symbol member => ?_⟩
        obtain ⟨group, inGroups, inGroup⟩ := List.mem_flatten.mp member
        obtain ⟨members, inMembers, named⟩ := exists_of_forall₂_right named inGroups
        obtain ⟨r, isMember, named⟩ := exists_of_forall₂_right named inGroup
        have listed := List.mem_flatten.mpr ⟨members, inMembers, isMember⟩
        have inGraph :=
          mem_records_of_groups (Graph.mem_of_get? (Graph.get?_of_resolveObject found)) grouped r listed
        exact ⟨r, inGraph, List.all_eq_true.mp kept r listed, named⟩
      · cases resolved
        exact Or.inl rfl

theorem KeepsShapeNamed.isWord {symbol : String} (kept : s.KeepsShapeNamed symbol) : IsWord symbol := by
  obtain ⟨r, _, _, named⟩ := kept
  obtain ⟨name, _, rfl⟩ := map_eq_ok_iff.mp named
  exact isWord_identOf _

end Scope
end QueryShapes
