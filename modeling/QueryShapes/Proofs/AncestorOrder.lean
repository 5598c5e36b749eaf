import QueryShapes.Proofs.Ancestors

namespace QueryShapes.Graph
open Relation

theorem isDescendant_iff_isBaseId {g : Graph} (wellFormed : IsWellFormed g.records) (id ancestor : TypeId) :
    g.isDescendant id ancestor = true ↔ id ≠ ancestor ∧ TransGen g.IsBaseId id ancestor := by
  rw [isDescendant_eq_true_iff, mem_map_ancestors_iff, ne_comm]
  refine and_congr_right fun _ => ⟨?_, fun path => ?_⟩
  · rintro ⟨r, a, here, there, path⟩
    cases id_of_get? here
    cases id_of_get? there
    exact transGen_isBaseId wellFormed.ids_nodup (mem_of_get? here) path
  · exact exists_transGen_isBase wellFormed.isClosed_bases path

/-- The ancestors of a type stand in the order in which a recursive traversal of its bases meets
them for the first time. Each of the other types that its bases lead to is there once, also where
bases close a circle, and a type descends from just these. -/
theorem ancestors_in_preorder {records : List TypeRecord} {g : Graph} (built : build records = .ok g) :
    (∀ r ∈ g.records,
      g.ancestors r.id = (g.depthFirst TypeRecord.bases r r.bases [r.id]).records ∧
        ((g.ancestors r.id).map TypeRecord.id).Nodup ∧
          ∀ a, a ∈ g.ancestors r.id ↔ a ≠ r ∧ TransGen g.IsBase r a) ∧
      ∀ id ancestor, g.isDescendant id ancestor = true ↔ id ≠ ancestor ∧ TransGen g.IsBaseId id ancestor := by
  have wellFormed := isWellFormed_of_build built
  refine ⟨fun r member => ?_, isDescendant_iff_isBaseId wellFormed⟩
  have own := get?_of_mem wellFormed.ids_nodup member
  refine ⟨ancestors_eq own, g.nodup_ancestors r.id, fun a => ?_⟩
  rw [mem_ancestors_iff own]
  refine and_congr_left fun path => not_congr ⟨fun sameId => ?_, congrArg TypeRecord.id⟩
  exact keyed_of_ids_nodup wellFormed.ids_nodup a (mem_of_reflTransGen path.to_reflTransGen member) r member sameId

namespace LoopedDiamond

def object (id : String) (bases : List TypeId) : TypeRecord :=
  ⟨⟨id⟩, "default::" ++ id, .object ⟨false, bases, [], [], []⟩⟩

def top : TypeRecord :=
  object "Top" []

def left : TypeRecord :=
  object "Left" [top.id]

def right : TypeRecord :=
  object "Right" [⟨"Bottom"⟩, top.id, left.id]

/-- A type with two bases that share one, where one of the two is based on it in turn. -/
def bottom : TypeRecord :=
  object "Bottom" [left.id, right.id, left.id]

def records : List TypeRecord :=
  [bottom, left, right, top]

theorem ancestors_of_bottom :
    build records = .ok ⟨records⟩ ∧ bottom ∈ records ∧
      (depthFirst ⟨records⟩ TypeRecord.bases bottom bottom.bases [bottom.id]).records = [left, top, right] ∧
        ancestors ⟨records⟩ bottom.id = [left, top, right] ∧
          (∀ a, a ∈ [left, top, right] ↔ a ≠ bottom ∧ TransGen (IsBase ⟨records⟩) bottom a) ∧
            ∀ id ancestor, isDescendant ⟨records⟩ id ancestor = true ↔
              id ≠ ancestor ∧ TransGen (IsBaseId ⟨records⟩) id ancestor := by
  have built : build records = .ok ⟨records⟩ := by cbv
  have member : bottom ∈ records := by simp [records]
  have order : ancestors ⟨records⟩ bottom.id = [left, top, right] := by cbv
  obtain ⟨traversed, descends⟩ := ancestors_in_preorder built
  obtain ⟨inPreorder, _, reached⟩ := traversed bottom member
  rw [order] at inPreorder reached
  exact ⟨built, member, inPreorder.symm, order, reached, descends⟩

end LoopedDiamond
end QueryShapes.Graph
