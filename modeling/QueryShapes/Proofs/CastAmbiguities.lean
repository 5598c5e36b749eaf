import Mathlib
import QueryShapes.Proofs.SharedTargets

namespace QueryShapes

namespace WideFirst

def narrow : Candidate := ⟨⟨"narrow"⟩, "narrow"⟩

def wide : Candidate := ⟨⟨"wide"⟩, "wide"⟩

def left : Candidate := ⟨⟨"left"⟩, "left"⟩

def right : Candidate := ⟨⟨"right"⟩, "right"⟩

/-- Two types that can be cast to a narrow one and on to a wide one, where the wide one
is listed first. -/
def candidates : List Candidate :=
  [wide, narrow, left, right]

def casts : CastMap :=
  ⟨[(left.id, [narrow.id]), (right.id, [narrow.id]), (narrow.id, [wide.id])]⟩

def matrix : CastMatrix :=
  .build candidates casts .never

theorem canCast_iff (c d : Candidate) :
    casts.CanCast c.id d.id ↔ d.id = c.id ∨ d.id ∈ casts.closure.targets c.id := by
  rw [CastMap.mem_targets_closure_iff]
  constructor
  · intro path
    by_cases same : d.id = c.id
    · exact Or.inl same
    · exact Or.inr ⟨same, path⟩
  · rintro (same | ⟨_, path⟩)
    · rw [same]
      exact .refl
    · exact path

theorem targets_left : casts.closure.targets left.id = [narrow.id, wide.id] := by
  cbv

theorem targets_right : casts.closure.targets right.id = [narrow.id, wide.id] := by
  cbv

theorem targets_narrow : casts.closure.targets narrow.id = [wide.id] := by
  cbv

theorem targets_wide : casts.closure.targets wide.id = [] := by
  cbv

theorem isShared_iff (c : Candidate) : IsShared candidates casts left right c ↔ c = wide ∨ c = narrow := by
  constructor
  · rintro ⟨listed, fromLeft, fromRight⟩
    rw [canCast_iff, targets_left] at fromLeft
    rw [canCast_iff, targets_right] at fromRight
    simp only [candidates, List.mem_cons, List.not_mem_nil, or_false] at listed
    rcases listed with rfl | rfl | rfl | rfl
    · exact Or.inl rfl
    · exact Or.inr rfl
    · exact absurd fromRight (by decide)
    · exact absurd fromLeft (by decide)
  · rintro (rfl | rfl)
    · exact ⟨by simp [candidates], (canCast_iff _ _).mpr (by rw [targets_left]; decide),
        (canCast_iff _ _).mpr (by rw [targets_right]; decide)⟩
    · exact ⟨by simp [candidates], (canCast_iff _ _).mpr (by rw [targets_left]; decide),
        (canCast_iff _ _).mpr (by rw [targets_right]; decide)⟩

theorem narrow_isMostSpecific : IsMostSpecific candidates casts left right narrow := by
  refine ⟨(isShared_iff narrow).mpr (Or.inr rfl), fun d shared => ?_⟩
  rcases (isShared_iff d).mp shared with rfl | rfl
  · exact (canCast_iff _ _).mpr (by rw [targets_narrow]; decide)
  · exact .refl

theorem wide_not_isMostSpecific : ¬IsMostSpecific candidates casts left right wide := by
  rintro ⟨_, reaches⟩
  have back := (canCast_iff wide narrow).mp (reaches narrow ((isShared_iff narrow).mpr (Or.inr rfl)))
  rw [targets_wide] at back
  exact absurd back (by decide)

/-- The pair is recorded and meets at the wide type, though both types can be cast to one
that can be cast to every other such type. -/
theorem recorded_despite_mostSpecific :
    (candidates.map Candidate.id).Nodup ∧ (candidates.map Candidate.name).Nodup ∧
      left ∈ candidates ∧ right ∈ candidates ∧ matrix.Records left.name right.name ∧
      IsMostSpecific candidates casts left right narrow ∧ matrix.fallback ≠ .type narrow.name ∧
      matrix.outcome? left.name right.name = some (.type wide.name) ∧
      ¬IsMostSpecific candidates casts left right wide := by
  have recorded : matrix.ambiguities =
      [⟨"left", "right", ["wide", "narrow"]⟩, ⟨"right", "left", ["wide", "narrow"]⟩] := by
    cbv
  have outcome : matrix.outcome? left.name right.name = some (.type wide.name) := by cbv
  refine ⟨by decide, by decide, by simp [candidates], by simp [candidates],
    ⟨⟨"left", "right", ["wide", "narrow"]⟩, ?_, rfl, rfl⟩, narrow_isMostSpecific, by decide, outcome,
    wide_not_isMostSpecific⟩
  rw [recorded]
  exact List.mem_cons_self ..

end WideFirst

namespace CastMatrix

/-- A pair that cannot be cast one way or the other is recorded exactly when its first
listed shared target falls short of another one. It meets at that first target, which is
a most specific one unless the pair is recorded. In a list with special types first,
pairs are recorded only for want of a most specific shared target. -/
theorem recorded_iff_first_shared_falls_short {candidates : List Candidate} (casts : CastMap)
    (fallback : CastOutcome) (ids : (candidates.map Candidate.id).Nodup)
    (names : (candidates.map Candidate.name).Nodup) {a b : Candidate} (left : a ∈ candidates)
    (right : b ∈ candidates) :
    ((build candidates casts fallback).Records a.name b.name ↔
      a ≠ b ∧ ¬casts.CanCast a.id b.id ∧ ¬casts.CanCast b.id a.id ∧
        ∃ c, IsFirstShared candidates casts a b c ∧ ¬IsMostSpecific candidates casts a b c) ∧
    (¬casts.CanCast a.id b.id → ¬casts.CanCast b.id a.id → (∃ c, IsShared candidates casts a b c) →
      ∃ c, IsFirstShared candidates casts a b c ∧
        (build candidates casts fallback).outcome? a.name b.name = some (.type c.name)) ∧
    ((∃ c, IsShared candidates casts a b c) → ¬(build candidates casts fallback).Records a.name b.name →
      ∃ c, IsMostSpecific candidates casts a b c ∧
        (build candidates casts fallback).outcome? a.name b.name = some (.type c.name)) ∧
    (SpecificFirst candidates casts →
      ((build candidates casts fallback).Records a.name b.name ↔
        a ≠ b ∧ ¬casts.CanCast a.id b.id ∧ ¬casts.CanCast b.id a.id ∧
          (∃ c, IsShared candidates casts a b c) ∧ ∀ c, ¬IsMostSpecific candidates casts a b c) ∧
      ((∃ c, IsMostSpecific candidates casts a b c) → ∃ c, IsMostSpecific candidates casts a b c ∧
        (build candidates casts fallback).outcome? a.name b.name = some (.type c.name))) := by
  refine ⟨records_iff ids names left right, fun forward backward shared => ?_,
    exists_mostSpecific ids names left right, fun specificFirst => ?_⟩
  · rcases outcome?_cases casts fallback ids names left right with
      ⟨_, _, castable, _⟩ | ⟨_, _, ⟨c, first, outcome⟩ | ⟨none, _⟩⟩
    · exact absurd castable (not_or.mpr ⟨forward, backward⟩)
    · exact ⟨c, first, outcome⟩
    · obtain ⟨c, shared⟩ := shared
      exact absurd shared (none c)
  · have recorded := records_iff_of_specificFirst fallback ids names specificFirst left right
    refine ⟨recorded, ?_⟩
    rintro ⟨c, best⟩
    exact exists_mostSpecific ids names left right ⟨c, best.1⟩ fun flagged => (recorded.mp flagged).2.2.2.2 c best

end CastMatrix

/-- With the wide type first the pair is recorded and meets there. -/
theorem WideFirst.wide_falls_short :
    (candidates.map Candidate.id).Nodup ∧ (candidates.map Candidate.name).Nodup ∧
      left ∈ candidates ∧ right ∈ candidates ∧ IsFirstShared candidates casts left right wide ∧
      matrix.Records left.name right.name ∧ matrix.outcome? left.name right.name = some (.type wide.name) := by
  have ids : (candidates.map Candidate.id).Nodup := by decide
  have names : (candidates.map Candidate.name).Nodup := by decide
  have listedLeft : left ∈ candidates := by simp [candidates]
  have listedRight : right ∈ candidates := by simp [candidates]
  have forward : ¬casts.CanCast left.id right.id := by
    rw [canCast_iff, targets_left]
    decide
  have backward : ¬casts.CanCast right.id left.id := by
    rw [canCast_iff, targets_right]
    decide
  have first : IsFirstShared candidates casts left right wide :=
    ⟨(isShared_iff wide).mpr (Or.inl rfl), [], [narrow, left, right], rfl, List.forall_mem_nil _⟩
  obtain ⟨recorded, meets, _⟩ :=
    CastMatrix.recorded_iff_first_shared_falls_short casts .never ids names listedLeft listedRight
  obtain ⟨c, first', outcome⟩ := meets forward backward ⟨wide, first.1⟩
  cases first'.unique first
  exact ⟨ids, names, listedLeft, listedRight, first,
    recorded.mpr ⟨by decide, forward, backward, wide, first, wide_not_isMostSpecific⟩, outcome⟩

end QueryShapes
