import QueryShapes.Proofs.Ancestors
import QueryShapes.Proofs.Emission
import QueryShapes.Proofs.SharedTargets

namespace QueryShapes
open Relation

namespace Scope

/-- A kept type that both types are or descend from. -/
structure IsCommon (s : Scope) (a b k : TypeRecord) : Prop where
  member : k ∈ s.graph.records
  kept : s.keepsShape k = true
  left : ReflTransGen s.graph.IsBase a k
  right : ReflTransGen s.graph.IsBase b k

def candidates (s : Scope) : List Candidate :=
  s.comparedObjects.map TypeRecord.candidate

def objectCasts (s : Scope) : CastMap :=
  .ofAncestors s.graph (s.comparedObjects.map TypeRecord.id)

theorem comparedObjects_eq (s : Scope) : s.comparedObjects = s.shapeTypes.reverse := by
  rw [comparedObjects, shapeTypes, TypeOrder.recordsReversed, TypeOrder.records, List.filterMap_reverse,
    List.filter_reverse]

section Ordered

variable {s : Scope} {a b : TypeRecord}

theorem IsOrdered.nodup_ids_candidates (ordered : s.IsOrdered) : (s.candidates.map Candidate.id).Nodup := by
  have ids : s.candidates.map Candidate.id = s.shapeTypes.reverse.map TypeRecord.id := by
    rw [candidates, comparedObjects_eq, List.map_map]
    rfl
  rw [ids]
  refine List.Nodup.map_on (fun r here r' there same => ?_) (List.nodup_reverse.mpr ordered.nodup_shapeTypes)
  have inGraph {r : TypeRecord} (listed : r ∈ s.shapeTypes.reverse) : r ∈ s.graph.records :=
    ordered.records_order.1.mem (List.mem_of_mem_filter (List.mem_reverse.mp listed))
  exact List.inj_on_of_nodup_map ordered.wellFormed.ids_nodup (inGraph here) (inGraph there) same

theorem IsOrdered.nodup_names_candidates (ordered : s.IsOrdered) : (s.candidates.map Candidate.name).Nodup := by
  have names : s.candidates.map Candidate.name = (s.shapeTypes.map TypeRecord.name).reverse := by
    rw [candidates, comparedObjects_eq, List.map_map, List.map_reverse]
    rfl
  have sublist : (s.shapeTypes.map TypeRecord.name).Sublist ((s.order.records s.graph).map TypeRecord.name) :=
    List.filter_sublist.map _
  rw [names]
  exact List.nodup_reverse.mpr (ordered.records_order.1.keys_nodup.sublist sublist)

section Pair

variable (ordered : s.IsOrdered) (names : (s.graph.records.map TypeRecord.name).Nodup)
include ordered names

theorem IsOrdered.mem_comparedObjects_iff {r : TypeRecord} :
    r ∈ s.comparedObjects ↔ r ∈ s.graph.records ∧ s.keepsShape r = true := by
  rw [comparedObjects_eq, List.mem_reverse, ordered.mem_shapeTypes_iff names]

theorem IsOrdered.canCast_objectCasts_iff {k : TypeRecord} (member : a ∈ s.graph.records)
    (kept : s.keepsShape a = true) (other : k ∈ s.graph.records) :
    s.objectCasts.CanCast a.candidate.id k.candidate.id ↔ ReflTransGen s.graph.IsBase a k := by
  have listed := (ordered.mem_comparedObjects_iff names).mpr ⟨member, kept⟩
  exact CastMap.canCast_ofAncestors_iff ordered.wellFormed.ids_nodup member other (List.mem_map_of_mem listed)

theorem IsOrdered.isShared_iff (member : a ∈ s.graph.records) (kept : s.keepsShape a = true)
    (member' : b ∈ s.graph.records) (kept' : s.keepsShape b = true) {c : Candidate} :
    IsShared s.candidates s.objectCasts a.candidate b.candidate c ↔ ∃ k, k.candidate = c ∧ s.IsCommon a b k := by
  constructor
  · rintro ⟨listed, left, right⟩
    obtain ⟨k, compared, rfl⟩ := List.mem_map.mp listed
    obtain ⟨inGraph, keeps⟩ := (ordered.mem_comparedObjects_iff names).mp compared
    exact ⟨k, rfl, inGraph, keeps, (ordered.canCast_objectCasts_iff names member kept inGraph).mp left,
      (ordered.canCast_objectCasts_iff names member' kept' inGraph).mp right⟩
  · rintro ⟨k, rfl, inGraph, keeps, left, right⟩
    exact ⟨List.mem_map_of_mem ((ordered.mem_comparedObjects_iff names).mpr ⟨inGraph, keeps⟩),
      (ordered.canCast_objectCasts_iff names member kept inGraph).mpr left,
      (ordered.canCast_objectCasts_iff names member' kept' inGraph).mpr right⟩

theorem IsOrdered.not_circle (member : a ∈ s.graph.records) : ¬TransGen s.graph.IsBase a a :=
  Graph.not_transGen_of_acc (Graph.acc_isBase_of_order ordered.wellFormed names ordered.ordered member)

/-- Dependents are compared before what they descend from. -/
theorem IsOrdered.specificFirst_candidates : SpecificFirst s.candidates s.objectCasts := by
  rw [SpecificFirst, candidates, List.pairwise_map, comparedObjects_eq, List.pairwise_reverse]
  refine (ordered.pairwise_shapeTypes names).imp_of_mem fun {r base} isShape isShape' apart toBase => ?_
  obtain ⟨member, kept⟩ := (ordered.mem_shapeTypes_iff names).mp isShape
  obtain ⟨member', _⟩ := (ordered.mem_shapeTypes_iff names).mp isShape'
  have path := (ordered.canCast_objectCasts_iff names member kept member').mp toBase
  rcases reflTransGen_iff_eq_or_transGen.mp path with rfl | path
  · exact .refl
  · exact absurd path apart

/-- A common type that can be cast to all others descends from all others. -/
theorem IsOrdered.isMostSpecific_iff (member : a ∈ s.graph.records) (kept : s.keepsShape a = true)
    (member' : b ∈ s.graph.records) (kept' : s.keepsShape b = true) {c : Candidate} :
    IsMostSpecific s.candidates s.objectCasts a.candidate b.candidate c ↔
      ∃ k, k.candidate = c ∧ s.IsCommon a b k ∧ ∀ k', s.IsCommon a b k' → k' ≠ k →
        TransGen s.graph.IsBase k k' := by
  have shared {c : Candidate} :
      IsShared s.candidates s.objectCasts a.candidate b.candidate c ↔ ∃ k, k.candidate = c ∧ s.IsCommon a b k :=
    ordered.isShared_iff names member kept member' kept'
  constructor
  · rintro ⟨here, reaches⟩
    obtain ⟨k, rfl, common⟩ := shared.mp here
    refine ⟨k, rfl, common, fun k' common' other => ?_⟩
    have toOther := reaches k'.candidate (shared.mpr ⟨k', rfl, common'⟩)
    have path := (ordered.canCast_objectCasts_iff names common.member common.kept common'.member).mp toOther
    exact (reflTransGen_iff_eq_or_transGen.mp path).resolve_left other
  · rintro ⟨k, rfl, common, descends⟩
    refine ⟨shared.mpr ⟨k, rfl, common⟩, fun d there => ?_⟩
    obtain ⟨k', rfl, common'⟩ := shared.mp there
    refine (ordered.canCast_objectCasts_iff names common.member common.kept common'.member).mpr ?_
    by_cases same : k' = k
    · rw [same]
    · exact (descends k' common' same).to_reflTransGen

/-- No common type descends from the first shared target. -/
theorem IsOrdered.lowest_of_isFirstShared (member : a ∈ s.graph.records) (kept : s.keepsShape a = true)
    (member' : b ∈ s.graph.records) (kept' : s.keepsShape b = true) {c : Candidate}
    (first : IsFirstShared s.candidates s.objectCasts a.candidate b.candidate c) :
    ∃ k, k.candidate = c ∧ s.IsCommon a b k ∧ ∀ k', s.IsCommon a b k' → ¬TransGen s.graph.IsBase k' k := by
  obtain ⟨k, rfl, common⟩ := (ordered.isShared_iff names member kept member' kept').mp first.1
  refine ⟨k, rfl, common, fun k' common' path => ?_⟩
  have shared := (ordered.isShared_iff names member kept member' kept').mpr ⟨k', rfl, common'⟩
  have toFirst := (ordered.canCast_objectCasts_iff names common'.member common'.kept common.member).mpr
    path.to_reflTransGen
  have back := first.canCast_back (ordered.specificFirst_candidates names) shared toFirst
  have path' := (ordered.canCast_objectCasts_iff names common.member common.kept common'.member).mp back
  exact ordered.not_circle names common.member (TransGen.trans_right path' path)

/-- What the object matrix holds for two kept types: a lowest common type, or the
fallback if there is no common one. -/
theorem IsOrdered.objectMatrix_cases (member : a ∈ s.graph.records) (kept : s.keepsShape a = true)
    (member' : b ∈ s.graph.records) (kept' : s.keepsShape b = true) :
    (∃ k, s.IsCommon a b k ∧ (∀ k', s.IsCommon a b k' → ¬TransGen s.graph.IsBase k' k) ∧
      s.objectMatrix.outcome? a.name b.name = some (.type k.name)) ∨
      (∀ k, ¬s.IsCommon a b k) ∧ s.objectMatrix.outcome? a.name b.name = some s.objectMatrix.fallback := by
  have left : a.candidate ∈ s.candidates :=
    List.mem_map_of_mem ((ordered.mem_comparedObjects_iff names).mpr ⟨member, kept⟩)
  have right : b.candidate ∈ s.candidates :=
    List.mem_map_of_mem ((ordered.mem_comparedObjects_iff names).mpr ⟨member', kept'⟩)
  rcases CastMatrix.outcome?_cases s.objectCasts s.objectMatrix.fallback ordered.nodup_ids_candidates
    ordered.nodup_names_candidates left right with
      ⟨c, best, _, outcome⟩ | ⟨_, _, ⟨c, first, outcome⟩ | ⟨none, outcome⟩⟩
  · obtain ⟨k, rfl, common, descends⟩ := (ordered.isMostSpecific_iff names member kept member' kept').mp best
    refine Or.inl ⟨k, common, fun k' common' path => ?_, outcome⟩
    by_cases same : k' = k
    · exact ordered.not_circle names common.member (same ▸ path)
    · exact ordered.not_circle names common.member ((descends k' common' same).trans path)
  · obtain ⟨k, rfl, common, lowest⟩ := ordered.lowest_of_isFirstShared names member kept member' kept' first
    exact Or.inl ⟨k, common, lowest, outcome⟩
  · refine Or.inr ⟨fun k common => ?_, outcome⟩
    exact none _ ((ordered.isShared_iff names member kept member' kept').mpr ⟨k, rfl, common⟩)

theorem IsOrdered.records_objectMatrix_iff (member : a ∈ s.graph.records) (kept : s.keepsShape a = true)
    (member' : b ∈ s.graph.records) (kept' : s.keepsShape b = true) :
    s.objectMatrix.Records a.name b.name ↔
      a ≠ b ∧ ¬TransGen s.graph.IsBase a b ∧ ¬TransGen s.graph.IsBase b a ∧ (∃ k, s.IsCommon a b k) ∧
        ¬∃ k, s.IsCommon a b k ∧ ∀ k', s.IsCommon a b k' → k' ≠ k → TransGen s.graph.IsBase k k' := by
  have left : a.candidate ∈ s.candidates :=
    List.mem_map_of_mem ((ordered.mem_comparedObjects_iff names).mpr ⟨member, kept⟩)
  have right : b.candidate ∈ s.candidates :=
    List.mem_map_of_mem ((ordered.mem_comparedObjects_iff names).mpr ⟨member', kept'⟩)
  have recorded := CastMatrix.records_iff_of_specificFirst s.objectMatrix.fallback ordered.nodup_ids_candidates
    ordered.nodup_names_candidates (ordered.specificFirst_candidates names) left right
  have forward := ordered.canCast_objectCasts_iff names member kept member'
  have backward := ordered.canCast_objectCasts_iff names member' kept' member
  refine recorded.trans ⟨?_, ?_⟩
  · rintro ⟨different, notForward, notBackward, ⟨c, there⟩, none⟩
    obtain ⟨k, _, common⟩ := (ordered.isShared_iff names member kept member' kept').mp there
    refine ⟨fun same => different (same ▸ rfl), fun path => notForward (forward.mpr path.to_reflTransGen),
      fun path => notBackward (backward.mpr path.to_reflTransGen), ⟨k, common⟩, ?_⟩
    rintro ⟨k, common, descends⟩
    exact none _ ((ordered.isMostSpecific_iff names member kept member' kept').mpr ⟨k, rfl, common, descends⟩)
  · rintro ⟨different, notForward, notBackward, ⟨k, common⟩, none⟩
    have apart {x y : TypeRecord} (other : x ≠ y) (noPath : ¬TransGen s.graph.IsBase x y) :
        ¬ReflTransGen s.graph.IsBase x y := fun path =>
      (reflTransGen_iff_eq_or_transGen.mp path).elim (fun same => other same.symm) noPath
    have notCast := mt forward.mp (apart different notForward)
    refine ⟨fun same => notCast (same ▸ .refl), notCast, mt backward.mp (apart different.symm notBackward),
      ⟨_, (ordered.isShared_iff names member kept member' kept').mpr ⟨k, rfl, common⟩⟩, fun c best => ?_⟩
    obtain ⟨k, _, common, descends⟩ := (ordered.isMostSpecific_iff names member kept member' kept').mp best
    exact none ⟨k, common, descends⟩

end Pair

theorem mem_of_named? {g : Graph} {name : String} {r : TypeRecord} (found : g.named? name = some r) :
    r ∈ g.records :=
  List.mem_reverse.mp (List.mem_of_find?_eq_some found)

/-- A scope has the root that its configuration names. -/
theorem root_of_snapshot {snapshot : Snapshot} {config : Config} {s : Scope}
    (made : snapshot.scope config = .ok s) :
    config.root = none ∧ s.root = none ∨ config.root.isSome ∧ ∃ root ∈ s.graph.records, s.root = some root := by
  simp only [Snapshot.scope, bind_eq_ok_iff, make, map_eq_ok_iff] at made
  obtain ⟨g, _, o, _, root, found, rfl⟩ := made
  unfold findRoot at found
  split at found
  · rename_i unnamed
    cases found
    exact Or.inl ⟨unnamed, rfl⟩
  · rename_i name named
    split at found
    · cases found
    · rename_i r here
      split at found
      · cases found
        exact Or.inr ⟨by rw [named]; rfl, r, mem_of_named? here, rfl⟩
      · cases found

/-- With a root, what is kept is the root or descends from it. -/
theorem IsOrdered.reflTransGen_root (ordered : s.IsOrdered) {root : TypeRecord} (rooted : s.root = some root)
    (inGraph : root ∈ s.graph.records) (member : a ∈ s.graph.records) (kept : s.keepsShape a = true) :
    ReflTransGen s.graph.IsBase a root := by
  have distinct := ordered.wellFormed.ids_nodup
  simp only [keepsShape, keepsObject, rooted, Bool.and_eq_true, Bool.or_eq_true, beq_iff_eq] at kept
  rcases kept.2.2 with same | descends
  · have own := Graph.get?_of_mem distinct member
    rw [same, Graph.get?_of_mem distinct inGraph] at own
    cases own
    exact .refl
  · exact ((Graph.isDescendant_iff (Graph.get?_of_mem distinct member) (Graph.get?_of_mem distinct inGraph)).mp
      descends).2.to_reflTransGen

end Ordered

/-- Two kept types meet at a common one from which no other common one descends, or at
the root. They are recorded exactly when no common type descends from all others. -/
theorem objectMatrix_meets_at_lowest {snapshot : Snapshot} {config : Config} {s : Scope}
    (made : snapshot.scope config = .ok s) (names : (snapshot.types.map TypeRecord.name).Nodup) :
    ∀ a ∈ snapshot.types, ∀ b ∈ snapshot.types, s.keepsShape a = true → s.keepsShape b = true →
      ∃ outcome, s.objectMatrix.outcome? a.name b.name = some outcome ∧
        (∀ name, outcome = .type name → ∃ c ∈ snapshot.types, c.name = name ∧
          ReflTransGen s.graph.IsBase a c ∧ ReflTransGen s.graph.IsBase b c ∧
          ∀ k, s.IsCommon a b k → ¬TransGen s.graph.IsBase k c) ∧
        (config.root.isSome → outcome ≠ .never) ∧
        (config.root = none → (outcome = .never ↔ ∀ k, ¬s.IsCommon a b k)) ∧
        (s.objectMatrix.Records a.name b.name ↔
          a ≠ b ∧ ¬TransGen s.graph.IsBase a b ∧ ¬TransGen s.graph.IsBase b a ∧ (∃ k, s.IsCommon a b k) ∧
            ¬∃ k, s.IsCommon a b k ∧ ∀ k', s.IsCommon a b k' → k' ≠ k → TransGen s.graph.IsBase k k') := by
  intro a member b member' kept kept'
  obtain ⟨ordered, records⟩ := of_snapshot made
  rw [← records] at names member member' ⊢
  have recorded := ordered.records_objectMatrix_iff names member kept member' kept'
  rcases ordered.objectMatrix_cases names member kept member' kept' with
    ⟨k, common, lowest, outcome⟩ | ⟨none, outcome⟩
  · refine ⟨_, outcome, fun name same => ?_, fun _ => by simp, fun _ => ?_, recorded⟩
    · cases same
      exact ⟨k, common.member, rfl, common.left, common.right, lowest⟩
    · simp only [reduceCtorEq, false_iff]
      exact fun none => none k common
  · rcases root_of_snapshot made with ⟨unrooted, noRoot⟩ | ⟨rooted, root, inGraph, isRoot⟩
    · have fallback : s.objectMatrix.fallback = .never := by
        simp only [objectMatrix, noRoot]
        rfl
      rw [fallback] at outcome
      refine ⟨_, outcome, fun _ same => absurd same (by simp), fun rooted => ?_, fun _ => ?_, recorded⟩
      · rw [unrooted] at rooted
        cases rooted
      · simp [none]
    · have fallback : s.objectMatrix.fallback = .type root.name := by
        simp only [objectMatrix, isRoot]
        rfl
      rw [fallback] at outcome
      refine ⟨_, outcome, fun name same => ?_, fun _ => by simp, fun unrooted => ?_, recorded⟩
      · cases same
        exact ⟨root, inGraph, rfl, ordered.reflTransGen_root isRoot inGraph member kept,
          ordered.reflTransGen_root isRoot inGraph member' kept', fun k common => absurd common (none k)⟩
      · rw [unrooted] at rooted
        cases rooted

end Scope

namespace Crossing

def object (id name : String) (bases : List TypeId) : TypeRecord :=
  ⟨⟨id⟩, name, .object ⟨false, bases, [], [], []⟩⟩

def root : TypeRecord :=
  object "root" "std::Object" []

def named : TypeRecord :=
  object "named" "default::Named" [root.id]

def dated : TypeRecord :=
  object "dated" "default::Dated" [root.id]

def post : TypeRecord :=
  object "post" "default::Post" [named.id, dated.id]

def event : TypeRecord :=
  object "event" "default::Event" [named.id, dated.id]

/-- Two types that share two bases. -/
def snapshot : Snapshot where
  types := [root, named, dated, post, event]
  casts := []

def scope : Scope :=
  ⟨⟨snapshot.types⟩, ⟨snapshot.types.map TypeRecord.id⟩, {}, some root⟩

theorem scope_eq : snapshot.scope {} = .ok scope := by
  cbv

theorem ancestors_post : scope.graph.ancestors post.id = [named, root, dated] := by
  cbv

theorem ancestors_event : scope.graph.ancestors event.id = [named, root, dated] := by
  cbv

theorem ancestors_named : scope.graph.ancestors named.id = [root] := by
  cbv

theorem ancestors_dated : scope.graph.ancestors dated.id = [root] := by
  cbv

theorem ancestors_root : scope.graph.ancestors root.id = [] := by
  cbv

theorem transGen_iff {r a : TypeRecord} (member : r ∈ snapshot.types) :
    TransGen scope.graph.IsBase r a ↔ a ∈ scope.graph.ancestors r.id := by
  have names : (snapshot.types.map TypeRecord.name).Nodup := by decide
  obtain ⟨ordered, _⟩ := Scope.of_snapshot scope_eq
  rw [Graph.mem_ancestors_iff (Graph.get?_of_mem ordered.wellFormed.ids_nodup member)]
  refine ⟨fun path => ⟨fun same => ?_, path⟩, And.right⟩
  obtain ⟨_, _, last⟩ := TransGen.tail'_iff.mp path
  have own := Graph.get?_of_mem ordered.wellFormed.ids_nodup member
  rw [← same, last.get?_id] at own
  cases own
  exact ordered.not_circle names member path

theorem descend_iff {k : TypeRecord} :
    ReflTransGen scope.graph.IsBase post k ∧ ReflTransGen scope.graph.IsBase event k ↔
      k = named ∨ k = root ∨ k = dated := by
  constructor
  · rintro ⟨left, right⟩
    rcases reflTransGen_iff_eq_or_transGen.mp left with rfl | left
    · rcases reflTransGen_iff_eq_or_transGen.mp right with same | right
      · exact absurd same (by decide)
      · rw [transGen_iff (by simp [snapshot]), ancestors_event] at right
        exact absurd right (by decide)
    · rw [transGen_iff (by simp [snapshot]), ancestors_post] at left
      simpa using left
  · intro shared
    have listed : k ∈ [named, root, dated] := by simpa using shared
    have left := (transGen_iff (r := post) (by simp [snapshot])).mpr (by rwa [ancestors_post])
    have right := (transGen_iff (r := event) (by simp [snapshot])).mpr (by rwa [ancestors_event])
    exact ⟨left.to_reflTransGen, right.to_reflTransGen⟩

theorem isCommon_iff {k : TypeRecord} : scope.IsCommon post event k ↔ k = named ∨ k = root ∨ k = dated := by
  constructor
  · rintro ⟨_, _, left, right⟩
    exact descend_iff.mp ⟨left, right⟩
  · intro shared
    obtain ⟨left, right⟩ := descend_iff.mpr shared
    rcases shared with rfl | rfl | rfl
    · exact ⟨by simp [scope, snapshot], by cbv, left, right⟩
    · exact ⟨by simp [scope, snapshot], by cbv, left, right⟩
    · exact ⟨by simp [scope, snapshot], by cbv, left, right⟩

/-- The two types meet at one of the two bases, and are recorded. -/
theorem post_event_recorded :
    snapshot.scope {} = .ok scope ∧ (snapshot.types.map TypeRecord.name).Nodup ∧ post ∈ snapshot.types ∧
      event ∈ snapshot.types ∧ scope.keepsShape post = true ∧ scope.keepsShape event = true ∧
      scope.objectMatrix.Records post.name event.name ∧
      ∃ c, (c = named ∨ c = dated) ∧ scope.objectMatrix.outcome? post.name event.name = some (.type c.name) := by
  have names : (snapshot.types.map TypeRecord.name).Nodup := by decide
  have listedPost : post ∈ snapshot.types := by simp [snapshot]
  have listedEvent : event ∈ snapshot.types := by simp [snapshot]
  have keptPost : scope.keepsShape post = true := by cbv
  have keptEvent : scope.keepsShape event = true := by cbv
  obtain ⟨outcome, meets, lowest, rooted, _, recorded⟩ :=
    Scope.objectMatrix_meets_at_lowest scope_eq names post listedPost event listedEvent keptPost keptEvent
  refine ⟨scope_eq, names, listedPost, listedEvent, keptPost, keptEvent, recorded.mpr ⟨by decide, ?_, ?_,
    ⟨named, isCommon_iff.mpr (Or.inl rfl)⟩, ?_⟩, ?_⟩
  · rw [transGen_iff listedPost, ancestors_post]
    decide
  · rw [transGen_iff listedEvent, ancestors_event]
    decide
  · rintro ⟨k, common, descends⟩
    rcases isCommon_iff.mp common with rfl | rfl | rfl
    · have path := descends dated (isCommon_iff.mpr (Or.inr (Or.inr rfl))) (by decide)
      rw [transGen_iff (by simp [snapshot]), ancestors_named] at path
      exact absurd path (by decide)
    · have path := descends named (isCommon_iff.mpr (Or.inl rfl)) (by decide)
      rw [transGen_iff (by simp [snapshot]), ancestors_root] at path
      cases path
    · have path := descends named (isCommon_iff.mpr (Or.inl rfl)) (by decide)
      rw [transGen_iff (by simp [snapshot]), ancestors_dated] at path
      exact absurd path (by decide)
  · cases outcome with
    | never => exact absurd rfl (rooted rfl)
    | type name =>
      obtain ⟨c, _, rfl, left, right, below⟩ := lowest name rfl
      refine ⟨c, ?_, meets⟩
      rcases descend_iff.mp ⟨left, right⟩ with rfl | rfl | rfl
      · exact Or.inl rfl
      · have path : TransGen scope.graph.IsBase named root := by
          rw [transGen_iff (by simp [snapshot]), ancestors_named]
          exact List.mem_singleton_self _
        exact absurd path (below named (isCommon_iff.mpr (Or.inl rfl)))
      · exact Or.inr rfl

end Crossing
end QueryShapes
