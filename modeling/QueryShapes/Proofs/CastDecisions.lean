import QueryShapes.Proofs.SharedTargets

namespace QueryShapes
open Relation

/-- Chains of at least one cast lead from both types to a third. They may lead through
types that are not listed. -/
def MeetAt (casts : CastMap) (a b s : Candidate) : Prop :=
  TransGen casts.Casts a.id s.id ∧ TransGen casts.Casts b.id s.id

open Classical in
/-- The decision on two listed types by chains of casts. -/
noncomputable def decideByChains (candidates : List Candidate) (casts : CastMap) (fallback : CastOutcome)
    (a b : Candidate) : CastDecision :=
  if a = b then ⟨.sameType, .type b.name⟩
  else if TransGen casts.Casts a.id b.id then ⟨.sourceToTarget, .type b.name⟩
  else if TransGen casts.Casts b.id a.id then ⟨.targetToSource, .type a.name⟩
  else
    match candidates.find? fun s => MeetAt casts a b s with
    | some s => if fallback = .type s.name then ⟨.fallback, fallback⟩ else ⟨.sharedTarget, .type s.name⟩
    | none => ⟨.fallback, fallback⟩

section Chains

variable {candidates : List Candidate} {casts : CastMap} {a b c : Candidate}

/-- Types that are apart share a target only if chains of casts lead there from both. -/
theorem isShared_iff_meetAt (forward : ¬casts.CanCast a.id b.id) (backward : ¬casts.CanCast b.id a.id) :
    IsShared candidates casts a b c ↔ c ∈ candidates ∧ MeetAt casts a b c := by
  constructor
  · rintro ⟨listed, left, right⟩
    have notLeft : a.id ≠ c.id := fun same => backward (same ▸ right)
    have notRight : b.id ≠ c.id := fun same => forward (same ▸ left)
    exact ⟨listed, (CastMap.canCast_iff_transGen notLeft).mp left, (CastMap.canCast_iff_transGen notRight).mp right⟩
  · rintro ⟨listed, left, right⟩
    exact ⟨listed, left.to_reflTransGen, right.to_reflTransGen⟩

open Classical in
/-- The first shared target is what a search of the list finds. -/
theorem IsFirstShared.find?_meetAt (first : IsFirstShared candidates casts a b c)
    (forward : ¬casts.CanCast a.id b.id) (backward : ¬casts.CanCast b.id a.id) :
    (candidates.find? fun s => MeetAt casts a b s) = some c := by
  obtain ⟨shared, before, after, parts, none⟩ := first
  have reached := ((isShared_iff_meetAt forward backward).mp shared).2
  refine List.find?_eq_some_iff_append.mpr ⟨decide_eq_true reached, before, after, parts, fun d inBefore => ?_⟩
  have listed : d ∈ candidates := by
    rw [parts]
    exact List.mem_append_left _ inBefore
  have unshared : ¬MeetAt casts a b d := fun both =>
    none d inBefore ((isShared_iff_meetAt forward backward).mpr ⟨listed, both⟩)
  simpa using unshared

open Classical in
/-- What is decided by how two nodes stand to each other is decided by chains. -/
theorem Relates.decideCast_eq {relation : CastRelation} (related : Relates candidates casts a b relation)
    (ids : (candidates.map Candidate.id).Nodup) (left : a ∈ candidates) (right : b ∈ candidates)
    (fallback : CastOutcome) :
    decideCast fallback (a.node casts) (b.node casts) relation = decideByChains candidates casts fallback a b := by
  have distinct (other : a.id ≠ b.id) : a ≠ b := fun same => other (same ▸ rfl)
  have apart (forward : ¬casts.CanCast a.id b.id) (backward : ¬casts.CanCast b.id a.id) :
      a ≠ b ∧ ¬TransGen casts.Casts a.id b.id ∧ ¬TransGen casts.Casts b.id a.id :=
    ⟨distinct fun same => forward (same ▸ .refl), fun path => forward path.to_reflTransGen,
      fun path => backward path.to_reflTransGen⟩
  unfold decideByChains
  cases related with
  | same one => rw [if_pos (List.inj_on_of_nodup_map ids left right one), decideCast, Candidate.node]
  | forward other forward =>
    rw [if_neg (distinct other), if_pos ((CastMap.canCast_iff_transGen other).mp forward), decideCast,
      Candidate.node]
  | backward forward backward =>
    have other : a.id ≠ b.id := fun same => forward (same ▸ .refl)
    rw [if_neg (distinct other), if_neg fun path => forward path.to_reflTransGen,
      if_pos ((CastMap.canCast_iff_transGen other.symm).mp backward), decideCast, Candidate.node]
  | alone forward backward none =>
    obtain ⟨different, noPath, noPathBack⟩ := apart forward backward
    have unfound : (candidates.find? fun s => MeetAt casts a b s) = Option.none := by
      rw [List.find?_eq_none]
      intro s listed both
      exact none s ((isShared_iff_meetAt forward backward).mpr ⟨listed, of_decide_eq_true both⟩)
    rw [if_neg different, if_neg noPath, if_neg noPathBack, unfound, decideCast]
  | @shared chosen others forward backward first _ =>
    obtain ⟨different, noPath, noPathBack⟩ := apart forward backward
    rw [if_neg different, if_neg noPath, if_neg noPathBack, first.find?_meetAt forward backward]
    rfl

end Chains

/-- Rows of one length stand one behind the other in their concatenation. -/
theorem take_drop_flatten {α : Type} {rows : List (List α)} {size : Nat} (uniform : ∀ row ∈ rows, row.length = size)
    {i : Nat} {row : List α} (here : rows[i]? = some row) : (rows.flatten.drop (i * size)).take size = row := by
  induction rows generalizing i with
  | nil => cases here
  | cons first rows ih =>
    obtain ⟨length, uniform⟩ := List.forall_mem_cons.mp uniform
    cases i with
    | zero =>
      cases here
      rw [Nat.zero_mul, List.drop_zero, List.flatten_cons, ← length, List.take_left]
    | succ i =>
      have deeper : (i + 1) * size = first.length + i * size := by
        rw [length, Nat.succ_mul, Nat.add_comm]
      rw [deeper, List.flatten_cons, ← List.drop_drop, List.drop_left]
      exact ih uniform here

namespace CastMatrix

/-- All decisions in one list, row by row. -/
def table (m : CastMatrix) : List CastDecision :=
  m.rows.flatten

/-- There is a row for each name, with a decision for each name. -/
structure IsSquare (m : CastMatrix) : Prop where
  rows_length : m.rows.length = m.size
  row_length : ∀ row ∈ m.rows, row.length = m.size

theorem isSquare_ofNodes (nodes : List CastNode) (fallback : CastOutcome) : (ofNodes nodes fallback).IsSquare := by
  constructor <;> simp [ofNodes, size]

namespace IsSquare

variable {m : CastMatrix} (square : m.IsSquare)
include square

theorem length_table : m.table.length = m.size * m.size := by
  have sizes : m.rows.map List.length = List.replicate m.size m.size := by
    rw [List.map_congr_left square.row_length, List.map_const', square.rows_length]
  rw [table, List.length_flatten, sizes, List.sum_replicate_nat]

/-- The row of a listed name is a segment of the table. -/
theorem exists_row {x : String} {i : Nat} (found : lastIndex? x m.names = some i) :
    ∃ row, m.rows[i]? = some row ∧ row.length = m.size ∧ (m.table.drop (i * m.size)).take m.size = row ∧
      m.row x = m.names.zip row := by
  have inside : i < m.rows.length := by
    rw [square.rows_length]
    exact (List.getElem?_eq_some_iff.mp (getElem?_of_lastIndex? found)).1
  have here := List.getElem?_eq_getElem inside
  refine ⟨m.rows[i], here, square.row_length _ (List.mem_of_getElem? here),
    take_drop_flatten square.row_length here, ?_⟩
  simp only [row, found, here, Option.getD_some]

theorem resolve_eq_some {x y : String} {i j : Nat} (left : lastIndex? x m.names = some i)
    (right : lastIndex? y m.names = some j) :
    i * m.size + j < m.table.length ∧ m.resolve x y = m.table[i * m.size + j]? := by
  obtain ⟨row, here, length, segment, _⟩ := square.exists_row left
  have inNames : i < m.size := (List.getElem?_eq_some_iff.mp (getElem?_of_lastIndex? left)).1
  have inRow : j < m.size := (List.getElem?_eq_some_iff.mp (getElem?_of_lastIndex? right)).1
  constructor
  · rw [square.length_table]
    calc i * m.size + j < i * m.size + m.size := by omega
      _ = (i + 1) * m.size := (Nat.succ_mul i m.size).symm
      _ ≤ m.size * m.size := Nat.mul_le_mul_right _ inNames
  · have atRow : m.resolve x y = row[j]? := by simp [resolve, left, right, here]
    rw [atRow, ← segment, List.getElem?_take_of_lt inRow, List.getElem?_drop]

theorem resolve_eq_none_iff {x y : String} : m.resolve x y = none ↔ x ∉ m.names ∨ y ∉ m.names := by
  cases left : lastIndex? x m.names with
  | none => simp [resolve, left, lastIndex?_eq_none_iff.mp left]
  | some i =>
    have inNames := List.mem_of_getElem? (getElem?_of_lastIndex? left)
    cases right : lastIndex? y m.names with
    | none => simp [resolve, left, right, lastIndex?_eq_none_iff.mp right]
    | some j =>
      have inNames' := List.mem_of_getElem? (getElem?_of_lastIndex? right)
      obtain ⟨inside, resolved⟩ := square.resolve_eq_some left right
      simp [resolved, inside, inNames, inNames']

end IsSquare

/-- A matrix that answers for the names of a list alone. Each pair is decided by chains of
casts, and a row holds the answers for its name in the order of the list. Both are read from
the table, never outside it. -/
structure AnswersByChains (m : CastMatrix) (candidates : List Candidate) (casts : CastMap)
    (fallback : CastOutcome) :
    Prop where
  decided : ∀ a ∈ candidates, ∀ b ∈ candidates,
    m.resolve a.name b.name = some (decideByChains candidates casts fallback a b)
  unanswered : ∀ x y, m.resolve x y = none ↔ x ∉ candidates.map Candidate.name ∨ y ∉ candidates.map Candidate.name
  row : ∀ a ∈ candidates, (m.row a.name).map (fun (y, decision) => (y, some decision)) =
    candidates.map fun b => (b.name, m.resolve a.name b.name)
  row_unlisted : ∀ x ∉ candidates.map Candidate.name, m.row x = []
  inside : ∀ x i, lastIndex? x m.names = some i →
    i * m.size + m.size ≤ m.table.length ∧ m.row x = m.names.zip ((m.table.drop (i * m.size)).take m.size) ∧
      ∀ y j, lastIndex? y m.names = some j →
        i * m.size + j < m.table.length ∧ m.resolve x y = m.table[i * m.size + j]?

theorem build_answersByChains {candidates : List Candidate} (casts : CastMap) (fallback : CastOutcome)
    (ids : (candidates.map Candidate.id).Nodup) (names : (candidates.map Candidate.name).Nodup) :
    (build candidates casts fallback).AnswersByChains candidates casts fallback := by
  have square : (build candidates casts fallback).IsSquare := isSquare_ofNodes _ _
  have listed : (build candidates casts fallback).names = candidates.map Candidate.name := names_nodes _ _
  have distinct : ((candidates.map (Candidate.node casts)).map CastNode.name).Nodup := by rwa [names_nodes]
  refine ⟨fun a left b right => ?_, fun x y => ?_, fun a left => ?_, fun x unlisted => ?_, fun x i found => ?_⟩
  · obtain ⟨relation, related, resolved, _⟩ := exists_relates casts fallback ids names left right
    rw [resolved, related.decideCast_eq ids left right]
  · rw [← listed]
    exact square.resolve_eq_none_iff
  · have nodeLeft : a.node casts ∈ candidates.map (Candidate.node casts) := List.mem_map_of_mem left
    have row : (build candidates casts fallback).row a.name = _ := row_ofNodes distinct nodeLeft
    rw [row, List.map_map, List.map_map]
    refine List.map_congr_left fun b right => ?_
    exact congrArg (b.name, ·) (resolve_ofNodes distinct nodeLeft (List.mem_map_of_mem right)).symm
  · rw [← listed] at unlisted
    simp only [CastMatrix.row, lastIndex?_eq_none_iff.mpr unlisted]
  · obtain ⟨row, _, length, segment, rowEq⟩ := square.exists_row found
    refine ⟨?_, by rw [rowEq, segment], fun y j found' => square.resolve_eq_some found found'⟩
    have inNames : i < (build candidates casts fallback).size :=
      (List.getElem?_eq_some_iff.mp (getElem?_of_lastIndex? found)).1
    rw [square.length_table, ← Nat.succ_mul]
    exact Nat.mul_le_mul_right _ inNames

end CastMatrix

namespace ThroughUnlisted

def narrow : Candidate := ⟨⟨"narrow"⟩, "narrow"⟩

def wide : Candidate := ⟨⟨"wide"⟩, "wide"⟩

/-- Two types that can be cast to each other, one way through a type that is not listed. -/
def casts : CastMap :=
  ⟨[(narrow.id, [⟨"middle"⟩]), (⟨"middle"⟩, [wide.id]), (wide.id, [narrow.id])]⟩

def candidates : List Candidate :=
  [narrow, wide]

/-- Each pair meets at its second type. -/
theorem meets_at_second :
    (candidates.map Candidate.id).Nodup ∧ (candidates.map Candidate.name).Nodup ∧
      narrow ∈ candidates ∧ wide ∈ candidates ∧
      (CastMatrix.build candidates casts .never).resolve "narrow" "wide" = some ⟨.sourceToTarget, .type "wide"⟩ ∧
      (CastMatrix.build candidates casts .never).resolve "wide" "narrow" =
        some ⟨.sourceToTarget, .type "narrow"⟩ := by
  have ids : (candidates.map Candidate.id).Nodup := by decide
  have names : (candidates.map Candidate.name).Nodup := by decide
  have first : narrow ∈ candidates := by simp [candidates]
  have second : wide ∈ candidates := by simp [candidates]
  have toMiddle : casts.Casts narrow.id ⟨"middle"⟩ := List.mem_singleton_self _
  have toWide : casts.Casts ⟨"middle"⟩ wide.id := List.mem_singleton_self _
  have toNarrow : casts.Casts wide.id narrow.id := List.mem_singleton_self _
  obtain ⟨decided, _⟩ := CastMatrix.build_answersByChains casts .never ids names
  refine ⟨ids, names, first, second, (decided _ first _ second).trans ?_, (decided _ second _ first).trans ?_⟩
  · rw [decideByChains, if_neg (by decide), if_pos (.tail (.single toMiddle) toWide)]
    rfl
  · rw [decideByChains, if_neg (by decide), if_pos (.single toNarrow)]
    rfl

end ThroughUnlisted
end QueryShapes
