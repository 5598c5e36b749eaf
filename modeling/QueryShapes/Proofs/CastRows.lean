import QueryShapes.Cast.Matrix
import Mathlib.Data.List.Nodup

namespace QueryShapes

theorem lastIndex?_eq_none_iff {α : Type} [DecidableEq α] {a : α} {list : List α} :
    lastIndex? a list = none ↔ a ∉ list := by
  induction list with
  | nil => simp [lastIndex?]
  | cons b list ih =>
    rw [lastIndex?, List.mem_cons, not_or, ← ih]
    cases lastIndex? a list with
    | some i => simp
    | none =>
      by_cases same : b = a
      · simp [same]
      · simp [same, Ne.symm same]

theorem getElem?_of_lastIndex? {α : Type} [DecidableEq α] {a : α} {list : List α} {i : Nat}
    (found : lastIndex? a list = some i) : list[i]? = some a := by
  induction list generalizing i with
  | nil => cases found
  | cons b list ih =>
    rw [lastIndex?] at found
    split at found
    · rename_i j later
      cases found
      exact ih later
    · split at found
      · rename_i same
        cases found
        exact congrArg some same
      · cases found

namespace CastMatrix

variable {nodes : List CastNode} {fallback : CastOutcome}

/-- A listed name is found where its own node stands. -/
theorem exists_lastIndex? (names : (nodes.map CastNode.name).Nodup) {a : CastNode} (listed : a ∈ nodes) :
    ∃ i, lastIndex? a.name (nodes.map CastNode.name) = some i ∧ nodes[i]? = some a := by
  have there : a.name ∈ nodes.map CastNode.name := List.mem_map_of_mem listed
  cases found : lastIndex? a.name (nodes.map CastNode.name) with
  | none => exact absurd there (lastIndex?_eq_none_iff.mp found)
  | some i =>
    have atIndex := getElem?_of_lastIndex? found
    rw [List.getElem?_map, Option.map_eq_some_iff] at atIndex
    obtain ⟨b, here, sameName⟩ := atIndex
    have same : b = a := List.inj_on_of_nodup_map names (List.mem_of_getElem? here) listed sameName
    exact ⟨i, rfl, same ▸ here⟩

theorem resolve_ofNodes (names : (nodes.map CastNode.name).Nodup) {a b : CastNode} (left : a ∈ nodes)
    (right : b ∈ nodes) :
    (ofNodes nodes fallback).resolve a.name b.name = some (decideCast fallback a b (relateCasts nodes a b)) := by
  obtain ⟨i, foundLeft, atLeft⟩ := exists_lastIndex? names left
  obtain ⟨j, foundRight, atRight⟩ := exists_lastIndex? names right
  simp only [resolve, ofNodes, foundLeft, foundRight, Option.bind_eq_bind, Option.bind_some]
  simp [atLeft, atRight]

theorem row_ofNodes (names : (nodes.map CastNode.name).Nodup) {a : CastNode} (listed : a ∈ nodes) :
    (ofNodes nodes fallback).row a.name =
      nodes.map fun b => (b.name, decideCast fallback a b (relateCasts nodes a b)) := by
  obtain ⟨i, found, here⟩ := exists_lastIndex? names listed
  simp only [row, ofNodes, found]
  simp [here, List.zip_map']

theorem mem_ambiguities_ofNodes {e : CastAmbiguity} :
    e ∈ (ofNodes nodes fallback).ambiguities ↔
      ∃ a ∈ nodes, ∃ b ∈ nodes, castAmbiguity? a b (relateCasts nodes a b) = some e := by
  simp [ofNodes]

end CastMatrix
end QueryShapes
