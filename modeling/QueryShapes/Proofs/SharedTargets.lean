import QueryShapes.Proofs.CastChains
import QueryShapes.Proofs.CastRows

namespace QueryShapes
open Relation

/-- A listed type with what the closed casts lead to. -/
def Candidate.node (casts : CastMap) (c : Candidate) : CastNode :=
  ⟨c.id, c.name, casts.closure.targets c.id⟩

/-- A listed type that both types can be cast to. -/
structure IsShared (candidates : List Candidate) (casts : CastMap) (a b c : Candidate) : Prop where
  listed : c ∈ candidates
  left : casts.CanCast a.id c.id
  right : casts.CanCast b.id c.id

/-- The first in the list that both types can be cast to. -/
def IsFirstShared (candidates : List Candidate) (casts : CastMap) (a b c : Candidate) : Prop :=
  IsShared candidates casts a b c ∧
    ∃ before after, candidates = before ++ c :: after ∧ ∀ d ∈ before, ¬IsShared candidates casts a b d

/-- A shared target that can be cast to all others. -/
def IsMostSpecific (candidates : List Candidate) (casts : CastMap) (a b c : Candidate) : Prop :=
  IsShared candidates casts a b c ∧ ∀ d, IsShared candidates casts a b d → casts.CanCast c.id d.id

/-- A type can be cast to one that stands before it only if that can be cast back. -/
def SpecificFirst (candidates : List Candidate) (casts : CastMap) : Prop :=
  candidates.Pairwise fun c d => casts.CanCast d.id c.id → casts.CanCast c.id d.id

/-- The ambiguity of a pair is recorded. -/
def CastMatrix.Records (m : CastMatrix) (a b : String) : Prop :=
  ∃ e ∈ m.ambiguities, e.left = a ∧ e.right = b

section Relation

variable {candidates : List Candidate} {casts : CastMap} {a b c d : Candidate}

theorem Candidate.mem_reach_node_iff : d.id ∈ (c.node casts).reach ↔ d.id ≠ c.id ∧ casts.CanCast c.id d.id :=
  CastMap.mem_targets_closure_iff

theorem IsFirstShared.unique (first : IsFirstShared candidates casts a b c)
    (first' : IsFirstShared candidates casts a b d) : c = d := by
  obtain ⟨shared, before, after, parts, none⟩ := first
  obtain ⟨shared', before', after', parts', none'⟩ := first'
  rw [parts, List.append_eq_append_iff] at parts'
  rcases parts' with ⟨between, rfl, later⟩ | ⟨between, rfl, later⟩
  · rcases List.cons_eq_append_iff.mp later with ⟨rfl, same⟩ | ⟨rest, rfl, _⟩
    · exact (List.cons.inj same).1.symm
    · exact absurd shared (none' c (by simp))
  · rcases List.cons_eq_append_iff.mp later with ⟨rfl, same⟩ | ⟨rest, rfl, _⟩
    · exact (List.cons.inj same).1
    · exact absurd shared' (none d (by simp))

/-- Where special types come first, the first shared target can be cast to whatever can be
cast to it. -/
theorem IsFirstShared.canCast_back (first : IsFirstShared candidates casts a b c)
    (specificFirst : SpecificFirst candidates casts) (shared : IsShared candidates casts a b d)
    (toFirst : casts.CanCast d.id c.id) : casts.CanCast c.id d.id := by
  obtain ⟨_, before, after, parts, none⟩ := first
  have listed := shared.listed
  rw [parts] at listed
  rcases List.mem_append.mp listed with inBefore | rest
  · exact absurd shared (none d inBefore)
  · rcases List.mem_cons.mp rest with rfl | inAfter
    · exact .refl
    · unfold SpecificFirst at specificFirst
      rw [parts, List.pairwise_append, List.pairwise_cons] at specificFirst
      exact specificFirst.2.1.1 d inAfter toFirst

theorem IsFirstShared.isMostSpecific (first : IsFirstShared candidates casts a b c)
    (specificFirst : SpecificFirst candidates casts) (best : IsMostSpecific candidates casts a b d) :
    IsMostSpecific candidates casts a b c := by
  have back := first.canCast_back specificFirst best.1 (best.2 c first.1)
  exact ⟨first.1, fun e shared => back.trans (best.2 e shared)⟩

/-- How two listed types stand to each other by chains of casts. Of several shared
targets the first and the others are told apart. -/
inductive Relates (candidates : List Candidate) (casts : CastMap) (a b : Candidate) : CastRelation → Prop
  | same : a.id = b.id → Relates candidates casts a b .same
  | forward : a.id ≠ b.id → casts.CanCast a.id b.id → Relates candidates casts a b .forward
  | backward : ¬casts.CanCast a.id b.id → casts.CanCast b.id a.id → Relates candidates casts a b .backward
  | alone : ¬casts.CanCast a.id b.id → ¬casts.CanCast b.id a.id →
      (∀ c, ¬IsShared candidates casts a b c) → Relates candidates casts a b (.apart [])
  | shared {chosen others} : ¬casts.CanCast a.id b.id → ¬casts.CanCast b.id a.id →
      IsFirstShared candidates casts a b chosen →
      (∀ c, c ∈ others ↔ IsShared candidates casts a b c ∧ c.id ≠ chosen.id) →
      Relates candidates casts a b (.apart ((chosen :: others).map (Candidate.node casts)))

theorem mem_reach_both_iff (forward : ¬casts.CanCast a.id b.id) (backward : ¬casts.CanCast b.id a.id)
    (listed : c ∈ candidates) :
    c.id ∈ (a.node casts).reach ∧ c.id ∈ (b.node casts).reach ↔ IsShared candidates casts a b c := by
  rw [Candidate.mem_reach_node_iff, Candidate.mem_reach_node_iff]
  constructor
  · rintro ⟨⟨_, left⟩, ⟨_, right⟩⟩
    exact ⟨listed, left, right⟩
  · rintro ⟨_, left, right⟩
    have notLeft : c.id ≠ a.id := fun same => backward (same ▸ right)
    have notRight : c.id ≠ b.id := fun same => forward (same ▸ left)
    exact ⟨⟨notLeft, left⟩, ⟨notRight, right⟩⟩

/-- The nodes of the shared targets in the order of the list. -/
theorem relates_apart (ids : (candidates.map Candidate.id).Nodup) (forward : ¬casts.CanCast a.id b.id)
    (backward : ¬casts.CanCast b.id a.id) :
    Relates candidates casts a b (.apart ((candidates.map (Candidate.node casts)).filter fun c =>
      c.id ∈ (a.node casts).reach && c.id ∈ (b.node casts).reach)) := by
  rw [List.filter_map]
  have shares : ∀ c ∈ candidates, ((fun c : CastNode => decide (c.id ∈ (a.node casts).reach) &&
      decide (c.id ∈ (b.node casts).reach)) ∘ Candidate.node casts) c = true ↔ IsShared candidates casts a b c := by
    intro c listed
    rw [← mem_reach_both_iff forward backward listed, Function.comp_apply, Bool.and_eq_true, decide_eq_true_iff,
      decide_eq_true_iff]
    rfl
  cases found : candidates.filter ((fun c : CastNode => decide (c.id ∈ (a.node casts).reach) &&
      decide (c.id ∈ (b.node casts).reach)) ∘ Candidate.node casts) with
  | nil =>
    refine .alone forward backward fun c shared => ?_
    exact List.filter_eq_nil_iff.mp found c shared.listed ((shares c shared.listed).mpr shared)
  | cons chosen others =>
    obtain ⟨before, after, parts, none, here, rest⟩ := List.filter_eq_cons_iff.mp found
    have member {d : Candidate} (inside : d ∈ before ++ chosen :: after) : d ∈ candidates := parts ▸ inside
    have first : IsShared candidates casts a b chosen := (shares chosen (member (by simp))).mp here
    refine .shared forward backward ⟨first, before, after, parts, fun d inBefore shared => ?_⟩ fun c => ?_
    · exact none d inBefore ((shares d (member (by simp [inBefore]))).mpr shared)
    · rw [← rest, List.mem_filter]
      rw [parts, List.map_append, List.map_cons, List.nodup_append, List.nodup_cons] at ids
      constructor
      · rintro ⟨inAfter, also⟩
        have other : c.id ≠ chosen.id := fun same => ids.2.1.1 (same ▸ List.mem_map_of_mem inAfter)
        exact ⟨(shares c (member (by simp [inAfter]))).mp also, other⟩
      · rintro ⟨shared, other⟩
        have also := (shares c shared.listed).mpr shared
        have listed := shared.listed
        rw [parts] at listed
        rcases List.mem_append.mp listed with inBefore | inRest
        · exact absurd also (none c inBefore)
        · rcases List.mem_cons.mp inRest with rfl | inAfter
          · exact absurd rfl other
          · exact ⟨inAfter, also⟩

theorem relateCasts_relates (ids : (candidates.map Candidate.id).Nodup) :
    Relates candidates casts a b
      (relateCasts (candidates.map (Candidate.node casts)) (a.node casts) (b.node casts)) := by
  have left : (b.node casts).id ∈ (a.node casts).reach ↔ b.id ≠ a.id ∧ casts.CanCast a.id b.id :=
    Candidate.mem_reach_node_iff
  have right : (a.node casts).id ∈ (b.node casts).reach ↔ a.id ≠ b.id ∧ casts.CanCast b.id a.id :=
    Candidate.mem_reach_node_iff
  have one : (a.node casts).id = (b.node casts).id ↔ a.id = b.id := Iff.rfl
  unfold relateCasts
  by_cases same : a.id = b.id
  · rw [if_pos (one.mpr same)]
    exact .same same
  have two := mt one.mp same
  by_cases forward : casts.CanCast a.id b.id
  · rw [if_neg two, if_pos (left.mpr ⟨Ne.symm same, forward⟩)]
    exact .forward same forward
  have notLeft : (b.node casts).id ∉ (a.node casts).reach := fun found => forward (left.mp found).2
  by_cases backward : casts.CanCast b.id a.id
  · rw [if_neg two, if_neg notLeft, if_pos (right.mpr ⟨same, backward⟩)]
    exact .backward forward backward
  have notRight : (a.node casts).id ∉ (b.node casts).reach := fun found => backward (right.mp found).2
  rw [if_neg two, if_neg notLeft, if_neg notRight]
  exact relates_apart ids forward backward

/-- What the outcome of a pair is: a type of the pair that the other can be cast to, the
first shared target, or the fallback. -/
theorem Relates.outcome {relation : CastRelation} (related : Relates candidates casts a b relation)
    (left : a ∈ candidates) (right : b ∈ candidates) (fallback : CastOutcome) :
    (∃ c, IsMostSpecific candidates casts a b c ∧ (casts.CanCast a.id b.id ∨ casts.CanCast b.id a.id) ∧
      (decideCast fallback (a.node casts) (b.node casts) relation).outcome = .type c.name) ∨
    ¬casts.CanCast a.id b.id ∧ ¬casts.CanCast b.id a.id ∧
      ((∃ c, IsFirstShared candidates casts a b c ∧
        (decideCast fallback (a.node casts) (b.node casts) relation).outcome = .type c.name) ∨
      (∀ c, ¬IsShared candidates casts a b c) ∧
        (decideCast fallback (a.node casts) (b.node casts) relation).outcome = fallback) := by
  have atRight (forward : casts.CanCast a.id b.id) : IsMostSpecific candidates casts a b b :=
    ⟨⟨right, forward, .refl⟩, fun d shared => shared.right⟩
  cases related with
  | same one => exact Or.inl ⟨b, atRight (one ▸ .refl), Or.inl (one ▸ .refl), rfl⟩
  | forward _ forward => exact Or.inl ⟨b, atRight forward, Or.inl forward, rfl⟩
  | backward _ backward =>
    exact Or.inl ⟨a, ⟨⟨left, .refl, backward⟩, fun d shared => shared.left⟩, Or.inr backward, rfl⟩
  | alone forward backward none => exact Or.inr ⟨forward, backward, Or.inr ⟨none, rfl⟩⟩
  | @shared chosen others forward backward first _ =>
    refine Or.inr ⟨forward, backward, Or.inl ⟨chosen, first, ?_⟩⟩
    by_cases meets : fallback = .type chosen.name
    · simp [decideCast, Candidate.node, meets]
    · simp [decideCast, Candidate.node, meets]

theorem Relates.castAmbiguity?_isSome_iff {relation : CastRelation}
    (related : Relates candidates casts a b relation) :
    (castAmbiguity? (a.node casts) (b.node casts) relation).isSome ↔
      a ≠ b ∧ ¬casts.CanCast a.id b.id ∧ ¬casts.CanCast b.id a.id ∧
        ∃ c, IsFirstShared candidates casts a b c ∧ ¬IsMostSpecific candidates casts a b c := by
  cases related with
  | same one => simp [castAmbiguity?, one, CastMap.CanCast, ReflTransGen.refl]
  | forward _ forward => simp [castAmbiguity?, forward]
  | backward _ backward => simp [castAmbiguity?, backward]
  | alone _ _ none =>
    simp only [castAmbiguity?, Option.isSome_none, Bool.false_eq_true, false_iff]
    rintro ⟨_, _, _, c, ⟨shared, _⟩, _⟩
    exact none c shared
  | @shared chosen others forward backward first rest =>
    have different : a ≠ b := fun same => forward (same ▸ .refl)
    have best :
        (others.map (Candidate.node casts)).all (fun d => decide (d.id ∈ (chosen.node casts).reach)) = true ↔
        IsMostSpecific candidates casts a b chosen := by
      rw [List.all_map, List.all_eq_true]
      constructor
      · intro reaches
        refine ⟨first.1, fun d shared => ?_⟩
        by_cases same : d.id = chosen.id
        · rw [same]
          exact .refl
        · have reached := reaches d ((rest d).mpr ⟨shared, same⟩)
          exact (Candidate.mem_reach_node_iff.mp (of_decide_eq_true reached)).2
      · intro best d member
        obtain ⟨shared, other⟩ := (rest d).mp member
        exact decide_eq_true (Candidate.mem_reach_node_iff.mpr ⟨other, best.2 d shared⟩)
    have only : (∃ c, IsFirstShared candidates casts a b c ∧ ¬IsMostSpecific candidates casts a b c) ↔
        ¬IsMostSpecific candidates casts a b chosen := by
      constructor
      · rintro ⟨c, first', short⟩
        exact first'.unique first ▸ short
      · exact fun short => ⟨chosen, first, short⟩
    rw [only, ← best]
    by_cases all :
        (others.map (Candidate.node casts)).all (fun d => decide (d.id ∈ (chosen.node casts).reach)) = true
    · simp [castAmbiguity?, all]
    · simp [castAmbiguity?, all, different, forward, backward]

end Relation

namespace CastMatrix

/-- The type at which the values of two listed types meet. -/
def outcome? (m : CastMatrix) (a b : String) : Option CastOutcome :=
  (m.resolve a b).map CastDecision.outcome

section Build

variable {candidates : List Candidate} {casts : CastMap} {fallback : CastOutcome} {a b : Candidate}

theorem names_nodes (candidates : List Candidate) (casts : CastMap) :
    (candidates.map (Candidate.node casts)).map CastNode.name = candidates.map Candidate.name := by
  rw [List.map_map]
  rfl

theorem names_of_castAmbiguity? {a b : CastNode} {relation : CastRelation} {e : CastAmbiguity}
    (ambiguous : castAmbiguity? a b relation = some e) : e.left = a.name ∧ e.right = b.name := by
  unfold castAmbiguity? at ambiguous
  split at ambiguous
  · split at ambiguous
    · cases ambiguous
    · cases ambiguous
      exact ⟨rfl, rfl⟩
  · cases ambiguous

/-- A pair of nodes is recorded under its names alone. -/
theorem mem_ambiguities_iff_of_names {nodes : List CastNode} (names : (nodes.map CastNode.name).Nodup)
    {a b : CastNode} (left : a ∈ nodes) (right : b ∈ nodes) {e : CastAmbiguity} (sameLeft : e.left = a.name)
    (sameRight : e.right = b.name) :
    e ∈ (ofNodes nodes fallback).ambiguities ↔ castAmbiguity? a b (relateCasts nodes a b) = some e := by
  rw [mem_ambiguities_ofNodes]
  constructor
  · rintro ⟨a', left', b', right', ambiguous⟩
    obtain ⟨nameLeft, nameRight⟩ := names_of_castAmbiguity? ambiguous
    cases List.inj_on_of_nodup_map names left' left (nameLeft.symm.trans sameLeft)
    cases List.inj_on_of_nodup_map names right' right (nameRight.symm.trans sameRight)
    exact ambiguous
  · exact fun ambiguous => ⟨a, left, b, right, ambiguous⟩

theorem records_ofNodes_iff {nodes : List CastNode} (names : (nodes.map CastNode.name).Nodup) {a b : CastNode}
    (left : a ∈ nodes) (right : b ∈ nodes) :
    (ofNodes nodes fallback).Records a.name b.name ↔ (castAmbiguity? a b (relateCasts nodes a b)).isSome := by
  rw [Option.isSome_iff_exists]
  constructor
  · rintro ⟨e, recorded, sameLeft, sameRight⟩
    exact ⟨e, (mem_ambiguities_iff_of_names names left right sameLeft sameRight).mp recorded⟩
  · rintro ⟨e, ambiguous⟩
    obtain ⟨nameLeft, nameRight⟩ := names_of_castAmbiguity? ambiguous
    exact ⟨e, (mem_ambiguities_iff_of_names names left right nameLeft nameRight).mpr ambiguous, nameLeft, nameRight⟩

/-- What a built matrix holds for a pair of listed types. -/
theorem exists_relates (casts : CastMap) (fallback : CastOutcome) (ids : (candidates.map Candidate.id).Nodup)
    (names : (candidates.map Candidate.name).Nodup) (left : a ∈ candidates) (right : b ∈ candidates) :
    ∃ relation, Relates candidates casts a b relation ∧
      (build candidates casts fallback).resolve a.name b.name =
        some (decideCast fallback (a.node casts) (b.node casts) relation) ∧
      ((build candidates casts fallback).Records a.name b.name ↔
        (castAmbiguity? (a.node casts) (b.node casts) relation).isSome) := by
  have distinct : ((candidates.map (Candidate.node casts)).map CastNode.name).Nodup := by rwa [names_nodes]
  have nodeLeft : a.node casts ∈ candidates.map (Candidate.node casts) := List.mem_map_of_mem left
  have nodeRight : b.node casts ∈ candidates.map (Candidate.node casts) := List.mem_map_of_mem right
  exact ⟨_, relateCasts_relates ids, resolve_ofNodes distinct nodeLeft nodeRight,
    records_ofNodes_iff distinct nodeLeft nodeRight⟩

theorem records_iff (ids : (candidates.map Candidate.id).Nodup) (names : (candidates.map Candidate.name).Nodup)
    (left : a ∈ candidates) (right : b ∈ candidates) :
    (build candidates casts fallback).Records a.name b.name ↔
      a ≠ b ∧ ¬casts.CanCast a.id b.id ∧ ¬casts.CanCast b.id a.id ∧
        ∃ c, IsFirstShared candidates casts a b c ∧ ¬IsMostSpecific candidates casts a b c := by
  obtain ⟨relation, related, _, recorded⟩ := exists_relates casts fallback ids names left right
  rw [recorded, related.castAmbiguity?_isSome_iff]

theorem outcome?_cases (casts : CastMap) (fallback : CastOutcome) (ids : (candidates.map Candidate.id).Nodup)
    (names : (candidates.map Candidate.name).Nodup) (left : a ∈ candidates) (right : b ∈ candidates) :
    (∃ c, IsMostSpecific candidates casts a b c ∧ (casts.CanCast a.id b.id ∨ casts.CanCast b.id a.id) ∧
      (build candidates casts fallback).outcome? a.name b.name = some (.type c.name)) ∨
    ¬casts.CanCast a.id b.id ∧ ¬casts.CanCast b.id a.id ∧
      ((∃ c, IsFirstShared candidates casts a b c ∧
        (build candidates casts fallback).outcome? a.name b.name = some (.type c.name)) ∨
      (∀ c, ¬IsShared candidates casts a b c) ∧
        (build candidates casts fallback).outcome? a.name b.name = some fallback) := by
  obtain ⟨relation, related, resolved, _⟩ := exists_relates casts fallback ids names left right
  rw [outcome?, resolved, Option.map_some]
  simpa only [Option.some_inj] using related.outcome left right fallback

/-- A pair with a shared target that is not recorded meets at a most specific one. -/
theorem exists_mostSpecific (ids : (candidates.map Candidate.id).Nodup)
    (names : (candidates.map Candidate.name).Nodup) (left : a ∈ candidates) (right : b ∈ candidates)
    (shared : ∃ c, IsShared candidates casts a b c)
    (unrecorded : ¬(build candidates casts fallback).Records a.name b.name) :
    ∃ c, IsMostSpecific candidates casts a b c ∧
      (build candidates casts fallback).outcome? a.name b.name = some (.type c.name) := by
  rcases outcome?_cases casts fallback ids names left right with
    ⟨c, best, _, outcome⟩ | ⟨forward, backward, ⟨c, first, outcome⟩ | ⟨none, _⟩⟩
  · exact ⟨c, best, outcome⟩
  · refine ⟨c, ?_, outcome⟩
    by_contra short
    have different : a ≠ b := fun same => forward (same ▸ .refl)
    exact unrecorded ((records_iff ids names left right).mpr ⟨different, forward, backward, c, first, short⟩)
  · obtain ⟨c, shared⟩ := shared
    exact absurd shared (none c)

/-- Where special types come first, only pairs without a most specific shared target
are recorded. -/
theorem records_iff_of_specificFirst (fallback : CastOutcome) (ids : (candidates.map Candidate.id).Nodup)
    (names : (candidates.map Candidate.name).Nodup) (specificFirst : SpecificFirst candidates casts)
    (left : a ∈ candidates) (right : b ∈ candidates) :
    (build candidates casts fallback).Records a.name b.name ↔
      a ≠ b ∧ ¬casts.CanCast a.id b.id ∧ ¬casts.CanCast b.id a.id ∧
        (∃ c, IsShared candidates casts a b c) ∧ ∀ c, ¬IsMostSpecific candidates casts a b c := by
  rw [records_iff ids names left right]
  constructor
  · rintro ⟨different, forward, backward, c, first, short⟩
    exact ⟨different, forward, backward, ⟨c, first.1⟩,
      fun d best => short (first.isMostSpecific specificFirst best)⟩
  · rintro ⟨different, forward, backward, ⟨c, shared⟩, none⟩
    rcases outcome?_cases casts fallback ids names left right with
      ⟨_, best, _⟩ | ⟨_, _, ⟨d, first, _⟩ | ⟨never, _⟩⟩
    · exact absurd best (none _)
    · exact ⟨different, forward, backward, d, first, none d⟩
    · exact absurd shared (never c)

end Build
end CastMatrix
end QueryShapes
