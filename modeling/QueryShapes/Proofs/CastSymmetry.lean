import Mathlib
import QueryShapes.Proofs.SharedTargets

namespace QueryShapes

/-- The same ambiguity for the reverse pair. -/
def CastAmbiguity.reversed (e : CastAmbiguity) : CastAmbiguity :=
  ⟨e.right, e.left, e.candidates⟩

/-- How two types stand to each other, seen from the first and from the second. -/
inductive Mirrors (a b : CastNode) : CastRelation → CastRelation → Prop
  | same : a.id = b.id → Mirrors a b .same .same
  | bothWays : b.id ∈ a.reach → a.id ∈ b.reach → Mirrors a b .forward .forward
  | forward : a.id ∉ b.reach → Mirrors a b .forward .backward
  | backward : b.id ∉ a.reach → Mirrors a b .backward .forward
  | apart {shared} : b.id ∉ a.reach → Mirrors a b (.apart shared) (.apart shared)

section Nodes

variable {nodes : List CastNode} {a b : CastNode} {relation reverse : CastRelation} {fallback : CastOutcome}

theorem relateCasts_mirrors (nodes : List CastNode) (a b : CastNode) :
    Mirrors a b (relateCasts nodes a b) (relateCasts nodes b a) := by
  unfold relateCasts
  by_cases same : a.id = b.id
  · rw [if_pos same, if_pos same.symm]
    exact .same same
  rw [if_neg same, if_neg (Ne.symm same)]
  by_cases forward : b.id ∈ a.reach <;> by_cases backward : a.id ∈ b.reach
  · rw [if_pos forward, if_pos backward]
    exact .bothWays forward backward
  · rw [if_pos forward, if_neg backward, if_pos forward]
    exact .forward backward
  · rw [if_neg forward, if_pos backward, if_pos backward]
    exact .backward forward
  · have shared : (nodes.filter fun c => c.id ∈ b.reach && c.id ∈ a.reach) =
        nodes.filter fun c => c.id ∈ a.reach && c.id ∈ b.reach :=
      List.filter_congr fun c _ => Bool.and_comm ..
    rw [if_neg forward, if_neg backward, if_neg backward, if_neg forward, shared]
    exact .apart forward

/-- A cast that leads one way only decides both directions alike. -/
theorem Mirrors.outcome_eq (mirrors : Mirrors a b relation reverse) (oneName : a.id = b.id → a.name = b.name)
    (oneWay : b.id ∈ a.reach → a.id ∉ b.reach) (fallback : CastOutcome) :
    (decideCast fallback a b relation).outcome = (decideCast fallback b a reverse).outcome := by
  cases mirrors with
  | same one => exact congrArg CastOutcome.type (oneName one).symm
  | bothWays forward backward => exact absurd backward (oneWay forward)
  | forward | backward => rfl
  | @apart shared _ => cases shared <;> rfl

theorem Mirrors.outcome_bothWays (mirrors : Mirrors a b relation reverse) (other : a.id ≠ b.id)
    (forward : b.id ∈ a.reach) (backward : a.id ∈ b.reach) (fallback : CastOutcome) :
    (decideCast fallback a b relation).outcome = .type b.name ∧
      (decideCast fallback b a reverse).outcome = .type a.name := by
  cases mirrors with
  | same one => exact absurd one other
  | bothWays => exact ⟨rfl, rfl⟩
  | forward noReturn => exact absurd backward noReturn
  | backward noWay | apart noWay => exact absurd forward noWay

theorem Mirrors.castAmbiguity?_eq (mirrors : Mirrors a b relation reverse) :
    castAmbiguity? b a reverse = (castAmbiguity? a b relation).map CastAmbiguity.reversed := by
  cases mirrors with
  | same | bothWays | forward | backward => rfl
  | @apart shared _ =>
    cases shared with
    | nil => rfl
    | cons chosen others =>
      by_cases reaches : others.all (·.id ∈ chosen.reach) = true
      · simp [castAmbiguity?, reaches]
      · simp [castAmbiguity?, reaches, CastAmbiguity.reversed]

namespace CastMatrix

theorem mem_ambiguities_reversed (names : (nodes.map CastNode.name).Nodup) (left : a ∈ nodes) (right : b ∈ nodes)
    {shared : List String} (recorded : ⟨a.name, b.name, shared⟩ ∈ (ofNodes nodes fallback).ambiguities) :
    ⟨b.name, a.name, shared⟩ ∈ (ofNodes nodes fallback).ambiguities := by
  have ambiguous := (mem_ambiguities_iff_of_names names left right rfl rfl).mp recorded
  refine (mem_ambiguities_iff_of_names names right left rfl rfl).mpr ?_
  rw [(relateCasts_mirrors nodes a b).castAmbiguity?_eq, ambiguous]
  rfl

end CastMatrix
end Nodes

namespace CastMatrix

/-- The pairs of types that are recorded. -/
def pairs (m : CastMatrix) : List (String × String) :=
  m.ambiguities.map fun e => (e.left, e.right)

theorem sublist_pairs_of_node (nodes : List CastNode) (a : CastNode) (relate : CastNode → CastRelation) :
    ((nodes.filterMap fun b => castAmbiguity? a b (relate b)).map fun e => (e.left, e.right)).Sublist
      ((nodes.map CastNode.name).map (Prod.mk a.name)) := by
  induction nodes with
  | nil => exact .slnil
  | cons b nodes ih =>
    rw [List.filterMap_cons]
    cases ambiguous : castAmbiguity? a b (relate b) with
    | none => exact ih.cons _
    | some e =>
      obtain ⟨left, right⟩ := names_of_castAmbiguity? ambiguous
      simp only [List.map_cons, left, right]
      exact ih.cons_cons _

/-- A matrix over distinct names records no pair twice. -/
theorem nodup_pairs_ofNodes {nodes : List CastNode} (names : (nodes.map CastNode.name).Nodup)
    (fallback : CastOutcome) : (ofNodes nodes fallback).pairs.Nodup := by
  refine (names.product names).sublist ?_
  change ((nodes.flatMap _).map _).Sublist ((nodes.map CastNode.name).flatMap _)
  rw [List.map_flatMap, List.flatMap_map]
  exact List.Sublist.flatMap_right _ fun a _ => sublist_pairs_of_node nodes a (relateCasts nodes a)

theorem nodup_pairs_build {candidates : List Candidate} (names : (candidates.map Candidate.name).Nodup)
    (casts : CastMap) (fallback : CastOutcome) : (build candidates casts fallback).pairs.Nodup := by
  rw [← names_nodes candidates casts] at names
  exact nodup_pairs_ofNodes names fallback

end CastMatrix

/-- Chains of casts lead from each of two different types to the other. -/
structure IsMutual (casts : CastMap) (a b : Candidate) : Prop where
  different : a ≠ b
  forward : casts.CanCast a.id b.id
  backward : casts.CanCast b.id a.id

namespace CastMatrix

/-- A matrix that says of each pair of a list what it says of the reverse pair, except that two
types that can be cast to each other meet at the second of them. A pair is recorded with the
reverse one and with the same shared targets, and never twice. -/
structure IsMirrored (m : CastMatrix) (candidates : List Candidate) (casts : CastMap) : Prop where
  meets_alike : ∀ a ∈ candidates, ∀ b ∈ candidates, ¬IsMutual casts a b →
    ∃ outcome, m.outcome? a.name b.name = some outcome ∧ m.outcome? b.name a.name = some outcome
  meets_at_second : ∀ a ∈ candidates, ∀ b ∈ candidates, IsMutual casts a b →
    m.outcome? a.name b.name = some (.type b.name) ∧ m.outcome? b.name a.name = some (.type a.name)
  recorded_alike : ∀ a ∈ candidates, ∀ b ∈ candidates, ∀ shared,
    ⟨a.name, b.name, shared⟩ ∈ m.ambiguities ↔ ⟨b.name, a.name, shared⟩ ∈ m.ambiguities
  recorded_once : m.pairs.Nodup

section Build

variable {candidates : List Candidate} {a b : Candidate}

theorem outcome?_build (casts : CastMap) (fallback : CastOutcome) (names : (candidates.map Candidate.name).Nodup)
    (left : a ∈ candidates) (right : b ∈ candidates) :
    (build candidates casts fallback).outcome? a.name b.name =
      some (decideCast fallback (a.node casts) (b.node casts)
        (relateCasts (candidates.map (Candidate.node casts)) (a.node casts) (b.node casts))).outcome := by
  have distinct : ((candidates.map (Candidate.node casts)).map CastNode.name).Nodup := by rwa [names_nodes]
  exact congrArg (Option.map CastDecision.outcome)
    (resolve_ofNodes distinct (List.mem_map_of_mem left) (List.mem_map_of_mem right))

theorem build_isMirrored (casts : CastMap) (fallback : CastOutcome) (ids : (candidates.map Candidate.id).Nodup)
    (names : (candidates.map Candidate.name).Nodup) :
    (build candidates casts fallback).IsMirrored candidates casts := by
  have distinct : ((candidates.map (Candidate.node casts)).map CastNode.name).Nodup := by rwa [names_nodes]
  have node {c : Candidate} (listed : c ∈ candidates) : c.node casts ∈ candidates.map (Candidate.node casts) :=
    List.mem_map_of_mem listed
  have mirrors (a b : Candidate) :=
    relateCasts_mirrors (candidates.map (Candidate.node casts)) (a.node casts) (b.node casts)
  refine ⟨fun a left b right apart => ?_, fun a left b right both => ?_, fun a left b right shared => ?_,
    nodup_pairs_build names casts fallback⟩
  · refine ⟨_, outcome?_build casts fallback names left right, ?_⟩
    rw [outcome?_build casts fallback names right left, Option.some_inj]
    refine ((mirrors a b).outcome_eq (fun one => ?_) (fun forward backward => apart ?_) fallback).symm
    · exact congrArg Candidate.name (List.inj_on_of_nodup_map ids left right one)
    · obtain ⟨other, forward⟩ := Candidate.mem_reach_node_iff.mp forward
      exact ⟨fun same => other (same ▸ rfl), forward, (Candidate.mem_reach_node_iff.mp backward).2⟩
  · have other : a.id ≠ b.id := fun one => both.different (List.inj_on_of_nodup_map ids left right one)
    obtain ⟨here, there⟩ := (mirrors a b).outcome_bothWays other
      (Candidate.mem_reach_node_iff.mpr ⟨other.symm, both.forward⟩)
      (Candidate.mem_reach_node_iff.mpr ⟨other, both.backward⟩) fallback
    rw [outcome?_build casts fallback names left right, outcome?_build casts fallback names right left, here, there]
    exact ⟨rfl, rfl⟩
  · exact ⟨mem_ambiguities_reversed distinct (node left) (node right),
      mem_ambiguities_reversed distinct (node right) (node left)⟩

end Build
end CastMatrix

namespace CrossedTargets

def left : Candidate := ⟨⟨"left"⟩, "left"⟩

def right : Candidate := ⟨⟨"right"⟩, "right"⟩

def first : Candidate := ⟨⟨"first"⟩, "first"⟩

def twin : Candidate := ⟨⟨"twin"⟩, "twin"⟩

def second : Candidate := ⟨⟨"second"⟩, "second"⟩

/-- Two types that can be cast to two others, of which one has a twin. -/
def casts : CastMap :=
  ⟨[(left.id, [first.id, second.id]), (right.id, [second.id, twin.id]), (first.id, [twin.id]),
    (twin.id, [first.id])]⟩

def candidates : List Candidate :=
  [left, right, first, twin, second]

def matrix : CastMatrix :=
  .build candidates casts .never

theorem reversed_left_right :
    (candidates.map Candidate.id).Nodup ∧ (candidates.map Candidate.name).Nodup ∧
      (left ∈ candidates ∧ right ∈ candidates ∧ ¬IsMutual casts left right ∧
        matrix.outcome? left.name right.name = some (.type first.name) ∧
        matrix.outcome? right.name left.name = some (.type first.name) ∧
        ⟨left.name, right.name, [first.name, twin.name, second.name]⟩ ∈ matrix.ambiguities ∧
        ⟨right.name, left.name, [first.name, twin.name, second.name]⟩ ∈ matrix.ambiguities) ∧
      (first ∈ candidates ∧ twin ∈ candidates ∧ IsMutual casts first twin ∧
        matrix.outcome? first.name twin.name = some (.type twin.name) ∧
        matrix.outcome? twin.name first.name = some (.type first.name)) ∧
      matrix.pairs.Nodup := by
  have ids : (candidates.map Candidate.id).Nodup := by decide
  have names : (candidates.map Candidate.name).Nodup := by decide
  have listedLeft : left ∈ candidates := by simp [candidates]
  have listedRight : right ∈ candidates := by simp [candidates]
  have listedFirst : first ∈ candidates := by simp [candidates]
  have listedTwin : twin ∈ candidates := by simp [candidates]
  obtain ⟨alike, atSecond, recorded, once⟩ := CastMatrix.build_isMirrored casts .never ids names
  have targetsLeft : casts.closure.targets left.id = [first.id, second.id, twin.id] := by cbv
  have apart : ¬IsMutual casts left right := by
    rintro ⟨_, forward, _⟩
    have found := CastMap.mem_targets_closure_iff.mpr ⟨by decide, forward⟩
    rw [targetsLeft] at found
    exact absurd found (by decide)
  have both : IsMutual casts first twin :=
    ⟨by decide, .single (List.mem_singleton_self _), .single (List.mem_singleton_self _)⟩
  obtain ⟨outcome, forward, backward⟩ := alike _ listedLeft _ listedRight apart
  have meets : matrix.outcome? left.name right.name = some (.type first.name) := by cbv
  have found : matrix.ambiguities =
      [⟨"left", "right", ["first", "twin", "second"]⟩, ⟨"right", "left", ["first", "twin", "second"]⟩] := by cbv
  have here : ⟨left.name, right.name, [first.name, twin.name, second.name]⟩ ∈ matrix.ambiguities := by
    rw [found]
    exact List.mem_cons_self ..
  refine ⟨ids, names, ⟨listedLeft, listedRight, apart, meets, ?_, here, ?_⟩,
    ⟨listedFirst, listedTwin, both, ?_⟩, once⟩
  · exact backward.trans (forward.symm.trans meets)
  · exact (recorded _ listedLeft _ listedRight _).mp here
  · exact atSecond _ listedFirst _ listedTwin both

end CrossedTargets
end QueryShapes
