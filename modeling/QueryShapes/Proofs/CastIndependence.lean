import Mathlib
import QueryShapes.Proofs.Ancestors
import QueryShapes.Proofs.Emission
import QueryShapes.Proofs.SharedTargets

namespace QueryShapes
open Relation

/-- A row of a catalogue allows the cast without its being written. -/
def ImplicitlyCasts (casts : List Cast) (source target : TypeId) : Prop :=
  ∃ c ∈ casts, c.allowImplicit = true ∧ c.source = source ∧ c.target = target

namespace CastMap

theorem casts_ofImplicit_iff {casts : List Cast} {source target : TypeId} :
    (ofImplicit casts).Casts source target ↔ ImplicitlyCasts casts source target := by
  have step (rows : List Cast) (m : CastMap) :
      target ∈ (rows.foldl (fun m c => m.insert c.source c.target) m).targets source ↔
        target ∈ m.targets source ∨ ∃ c ∈ rows, c.source = source ∧ c.target = target := by
    induction rows generalizing m with
    | nil => simp
    | cons c rows ih =>
      rw [List.foldl_cons, ih, insert, mem_targets_extend, List.mem_singleton, List.exists_mem_cons_iff, or_assoc]
      simp only [eq_comm]
  have filtered : (∃ c ∈ casts.filter Cast.allowImplicit, c.source = source ∧ c.target = target) ↔
      ImplicitlyCasts casts source target := by
    simp [ImplicitlyCasts, and_assoc]
  rw [Casts, ofImplicit, step, filtered]
  simp [targets]

theorem canCast_ofImplicit_iff {casts : List Cast} {source target : TypeId} (other : source ≠ target) :
    (ofImplicit casts).CanCast source target ↔ TransGen (ImplicitlyCasts casts) source target := by
  have same : (ofImplicit casts).Casts = ImplicitlyCasts casts := by
    funext a b
    exact propext casts_ofImplicit_iff
  rw [canCast_iff_transGen other, same]

end CastMap

@[simp]
theorem Candidate.id_node (casts : CastMap) (c : Candidate) : (c.node casts).id = c.id :=
  rfl

@[simp]
theorem Candidate.name_node (casts : CastMap) (c : Candidate) : (c.node casts).name = c.name :=
  rfl

/-- Two maps have chains between the same listed types. -/
def AgreeOn (candidates : List Candidate) (casts casts' : CastMap) : Prop :=
  ∀ a ∈ candidates, ∀ b ∈ candidates, a.id ≠ b.id → (casts.CanCast a.id b.id ↔ casts'.CanCast a.id b.id)

namespace AgreeOn

variable {candidates : List Candidate} {casts casts' : CastMap} (agree : AgreeOn candidates casts casts')
  {a b : Candidate} (left : a ∈ candidates) (right : b ∈ candidates)
include agree left right

theorem mem_reach_iff : b.id ∈ (a.node casts).reach ↔ b.id ∈ (a.node casts').reach := by
  rw [Candidate.mem_reach_node_iff, Candidate.mem_reach_node_iff]
  exact and_congr_right fun other => agree a left b right (Ne.symm other)

/-- Listed types stand to each other alike, though the nodes of what they share may differ
in types that are not listed. -/
theorem relateCasts_cases :
    relateCasts (candidates.map (Candidate.node casts)) (a.node casts) (b.node casts) =
        relateCasts (candidates.map (Candidate.node casts')) (a.node casts') (b.node casts') ∨
      ∃ shared ⊆ candidates,
        relateCasts (candidates.map (Candidate.node casts)) (a.node casts) (b.node casts) =
          .apart (shared.map (Candidate.node casts)) ∧
        relateCasts (candidates.map (Candidate.node casts')) (a.node casts') (b.node casts') =
          .apart (shared.map (Candidate.node casts')) := by
  have shares : ∀ c ∈ candidates,
      ((fun c : CastNode => decide (c.id ∈ (a.node casts).reach) && decide (c.id ∈ (b.node casts).reach)) ∘
        Candidate.node casts) c =
      ((fun c : CastNode => decide (c.id ∈ (a.node casts').reach) && decide (c.id ∈ (b.node casts').reach)) ∘
        Candidate.node casts') c := by
    intro c listed
    rw [Bool.eq_iff_iff]
    simp only [Function.comp_apply, Bool.and_eq_true, decide_eq_true_iff]
    exact and_congr (agree.mem_reach_iff left listed) (agree.mem_reach_iff right listed)
  simp only [relateCasts, Candidate.id_node, agree.mem_reach_iff left right, agree.mem_reach_iff right left,
    List.filter_map, List.filter_congr shares]
  split_ifs
  · exact Or.inl rfl
  · exact Or.inl rfl
  · exact Or.inl rfl
  · exact Or.inr ⟨_, List.filter_subset_self _, rfl, rfl⟩

theorem decideCast_eq (fallback : CastOutcome) :
    decideCast fallback (a.node casts) (b.node casts)
        (relateCasts (candidates.map (Candidate.node casts)) (a.node casts) (b.node casts)) =
      decideCast fallback (a.node casts') (b.node casts')
        (relateCasts (candidates.map (Candidate.node casts')) (a.node casts') (b.node casts')) := by
  rcases agree.relateCasts_cases left right with same | ⟨shared, _, apart, apart'⟩
  · rw [same]
    cases relateCasts (candidates.map (Candidate.node casts')) (a.node casts') (b.node casts') with
    | same | forward | backward => rfl
    | apart shared => cases shared <;> rfl
  · rw [apart, apart']
    cases shared <;> rfl

theorem castAmbiguity?_eq :
    castAmbiguity? (a.node casts) (b.node casts)
        (relateCasts (candidates.map (Candidate.node casts)) (a.node casts) (b.node casts)) =
      castAmbiguity? (a.node casts') (b.node casts')
        (relateCasts (candidates.map (Candidate.node casts')) (a.node casts') (b.node casts')) := by
  rcases agree.relateCasts_cases left right with same | ⟨shared, listed, apart, apart'⟩
  · rw [same]
    cases relateCasts (candidates.map (Candidate.node casts')) (a.node casts') (b.node casts') with
    | same | forward | backward => rfl
    | apart shared => cases shared <;> rfl
  · rw [apart, apart']
    cases shared with
    | nil => rfl
    | cons chosen others =>
      obtain ⟨first, rest⟩ := List.cons_subset.mp listed
      have reached : (others.map (Candidate.node casts)).all (fun d => decide (d.id ∈ (chosen.node casts).reach)) =
          (others.map (Candidate.node casts')).all fun d => decide (d.id ∈ (chosen.node casts').reach) := by
        rw [List.all_map, List.all_map, Bool.eq_iff_iff, List.all_eq_true, List.all_eq_true]
        simp only [Function.comp_apply, decide_eq_true_iff]
        exact forall₂_congr fun d member => agree.mem_reach_iff first (rest member)
      simp only [List.map_cons, castAmbiguity?, reached, Candidate.name_node, List.map_map]
      rfl

end AgreeOn

/-- A matrix depends on which listed types are chained, and on nothing else. -/
theorem CastMatrix.build_congr {candidates : List Candidate} {casts casts' : CastMap}
    (agree : AgreeOn candidates casts casts') (fallback : CastOutcome) :
    build candidates casts fallback = build candidates casts' fallback := by
  have rows : (candidates.map (Candidate.node casts)).map (fun a =>
      (candidates.map (Candidate.node casts)).map fun b =>
      decideCast fallback a b (relateCasts (candidates.map (Candidate.node casts)) a b)) =
      (candidates.map (Candidate.node casts')).map fun a => (candidates.map (Candidate.node casts')).map fun b =>
        decideCast fallback a b (relateCasts (candidates.map (Candidate.node casts')) a b) := by
    rw [List.map_map, List.map_map]
    refine List.map_congr_left fun a left => ?_
    simp only [Function.comp_apply]
    rw [List.map_map, List.map_map]
    exact List.map_congr_left fun b right => agree.decideCast_eq left right fallback
  have ambiguities : (candidates.map (Candidate.node casts)).flatMap (fun a =>
      (candidates.map (Candidate.node casts)).filterMap fun b =>
        castAmbiguity? a b (relateCasts (candidates.map (Candidate.node casts)) a b)) =
      (candidates.map (Candidate.node casts')).flatMap fun a =>
        (candidates.map (Candidate.node casts')).filterMap fun b =>
          castAmbiguity? a b (relateCasts (candidates.map (Candidate.node casts')) a b) := by
    rw [List.flatMap_map, List.flatMap_map]
    refine List.flatMap_congr fun a left => ?_
    rw [List.filterMap_map, List.filterMap_map]
    exact List.filterMap_congr fun b right => agree.castAmbiguity?_eq left right
  change ofNodes (candidates.map (Candidate.node casts)) fallback =
    ofNodes (candidates.map (Candidate.node casts')) fallback
  rw [ofNodes, ofNodes, rows, ambiguities, names_nodes, names_nodes]

/-- Material scalars are chained alike by the implicit rows of two catalogues. -/
def SameChains (types : List TypeRecord) (casts casts' : List Cast) : Prop :=
  ∀ a ∈ types, ∀ b ∈ types, a.scalar?.any ScalarType.isMaterial → b.scalar?.any ScalarType.isMaterial →
    a.id ≠ b.id →
    (TransGen (ImplicitlyCasts casts) a.id b.id ↔ TransGen (ImplicitlyCasts casts') a.id b.id)

theorem SameChains.of_rows {casts casts' : List Cast} (types : List TypeRecord)
    (rows : ∀ a b, ImplicitlyCasts casts a b ↔ ImplicitlyCasts casts' a b) : SameChains types casts casts' := by
  have same : ImplicitlyCasts casts = ImplicitlyCasts casts' := by
    funext a b
    exact propext (rows a b)
  exact fun a _ b _ _ _ _ => by rw [same]

/-- A row between types that are chained anyway makes no further chains. -/
theorem SameChains.cons {types : List TypeRecord} {casts : List Cast} {c : Cast}
    (implied : c.allowImplicit = false ∨ c.source = c.target ∨ TransGen (ImplicitlyCasts casts) c.source c.target) :
    SameChains types (c :: casts) casts := by
  intro a _ b _ _ _ other
  have old {x y : TypeId} (row : ImplicitlyCasts casts x y) : ImplicitlyCasts (c :: casts) x y := by
    obtain ⟨d, listed, row⟩ := row
    exact ⟨d, List.mem_cons_of_mem _ listed, row⟩
  have chained {x y : TypeId} (row : ImplicitlyCasts (c :: casts) x y) :
      ReflTransGen (ImplicitlyCasts casts) x y := by
    obtain ⟨d, listed, isImplicit, rfl, rfl⟩ := row
    rcases List.mem_cons.mp listed with rfl | listed
    · rcases implied with explicit | same | path
      · rw [isImplicit] at explicit
        cases explicit
      · rw [same]
      · exact path.to_reflTransGen
    · exact .single ⟨d, listed, isImplicit, rfl, rfl⟩
  constructor
  · intro path
    have path' := reflTransGen_closed (fun _ _ => chained) _ _ path.to_reflTransGen
    exact (reflTransGen_iff_eq_or_transGen.mp path').resolve_left (Ne.symm other)
  · exact TransGen.mono (fun _ _ => old) _ _

/-- The rows that do not mention a type. -/
def rowsWithout (id : TypeId) (casts : List Cast) : List Cast :=
  casts.filter fun c => c.source ≠ id ∧ c.target ≠ id

theorem implicitlyCasts_rowsWithout_iff {id : TypeId} {casts : List Cast} {a b : TypeId} :
    ImplicitlyCasts (rowsWithout id casts) a b ↔ ImplicitlyCasts casts a b ∧ a ≠ id ∧ b ≠ id := by
  constructor
  · rintro ⟨c, listed, isImplicit, rfl, rfl⟩
    obtain ⟨listed, apart⟩ := List.mem_filter.mp listed
    exact ⟨⟨c, listed, isImplicit, rfl, rfl⟩, of_decide_eq_true apart⟩
  · rintro ⟨⟨c, listed, isImplicit, rfl, rfl⟩, apart⟩
    exact ⟨c, List.mem_filter.mpr ⟨listed, decide_eq_true apart⟩, isImplicit, rfl, rfl⟩

/-- A chain goes around a type through which no two others are chained that are not chained
without it. -/
theorem reflTransGen_rowsWithout {id : TypeId} {casts : List Cast}
    (around : ∀ a b, ImplicitlyCasts casts a id → ImplicitlyCasts casts id b → a ≠ id → b ≠ id →
      ReflTransGen (ImplicitlyCasts (rowsWithout id casts)) a b)
    {a b : TypeId} (fromOther : a ≠ id) (toOther : b ≠ id) (path : ReflTransGen (ImplicitlyCasts casts) a b) :
    ReflTransGen (ImplicitlyCasts (rowsWithout id casts)) a b := by
  have reached {b : TypeId} (path : ReflTransGen (ImplicitlyCasts casts) a b) :
      (b ≠ id → ReflTransGen (ImplicitlyCasts (rowsWithout id casts)) a b) ∧
        (b = id → ∃ x, x ≠ id ∧ ImplicitlyCasts casts x id ∧
          ReflTransGen (ImplicitlyCasts (rowsWithout id casts)) a x) := by
    induction path with
    | refl => exact ⟨fun _ => .refl, fun same => absurd same fromOther⟩
    | @tail before b _ row ih =>
      obtain ⟨away, here⟩ := ih
      by_cases through : before = id
      · obtain ⟨x, notHere, into, path⟩ := here through
        refine ⟨fun other => ?_, fun _ => ⟨x, notHere, into, path⟩⟩
        exact path.trans (around x b into (through ▸ row) notHere other)
      · refine ⟨fun other => ?_, fun same => ⟨before, through, same ▸ row, away through⟩⟩
        exact (away through).tail (implicitlyCasts_rowsWithout_iff.mpr ⟨row, through, other⟩)
  exact (reached path).1 toOther

theorem SameChains.rowsWithout {types : List TypeRecord} {casts : List Cast} {id : TypeId}
    (unknown : ∀ r ∈ types, r.id ≠ id)
    (around : ∀ a b, ImplicitlyCasts casts a id → ImplicitlyCasts casts id b → a ≠ id → b ≠ id →
      ReflTransGen (ImplicitlyCasts (rowsWithout id casts)) a b) :
    SameChains types (rowsWithout id casts) casts := by
  intro a left b right _ _ other
  constructor
  · exact TransGen.mono (fun _ _ row => (implicitlyCasts_rowsWithout_iff.mp row).1) _ _
  · intro path
    have path' := reflTransGen_rowsWithout around (unknown a left) (unknown b right) path.to_reflTransGen
    exact (reflTransGen_iff_eq_or_transGen.mp path').resolve_left (Ne.symm other)

/-- A scope compares scalars by the chains between them. -/
theorem Scope.generate_congr {s : Scope} {casts casts' : List Cast}
    (same : SameChains s.graph.records casts casts') :
    s.generate (.ofImplicit casts) = s.generate (.ofImplicit casts') := by
  have agree : AgreeOn (s.materialScalars.map TypeRecord.candidate) (.ofImplicit casts) (.ofImplicit casts') := by
    intro a left b right other
    obtain ⟨r, isScalar, rfl⟩ := List.mem_map.mp left
    obtain ⟨r', isScalar', rfl⟩ := List.mem_map.mp right
    obtain ⟨inOrder, material⟩ := List.mem_filter.mp isScalar
    obtain ⟨inOrder', material'⟩ := List.mem_filter.mp isScalar'
    obtain ⟨_, _, found⟩ := List.mem_filterMap.mp inOrder
    obtain ⟨_, _, found'⟩ := List.mem_filterMap.mp inOrder'
    rw [CastMap.canCast_ofImplicit_iff other, CastMap.canCast_ofImplicit_iff other]
    exact same r (Graph.mem_of_get? found) r' (Graph.mem_of_get? found') material material' other
  have matrices : s.scalarMatrix (.ofImplicit casts) = s.scalarMatrix (.ofImplicit casts') :=
    CastMatrix.build_congr agree .never
  simp only [generate, matrices]

theorem Snapshot.generate_congr {types : List TypeRecord} {casts casts' : List Cast}
    (same : SameChains types casts casts') (config : Config) :
    Snapshot.generate ⟨types, casts⟩ config = Snapshot.generate ⟨types, casts'⟩ config := by
  unfold Snapshot.generate
  refine bind_congr_of_ok fun g built => bind_congr_of_ok fun o _ => bind_congr_of_ok fun s made => ?_
  obtain ⟨rfl, _⟩ := Graph.build_eq_ok_iff.mp (mapError_eq_ok_iff.mp built)
  obtain ⟨root, _, rfl⟩ := map_eq_ok_iff.mp (mapError_eq_ok_iff.mp made)
  exact Scope.generate_congr same

/-- Of a catalogue of casts, the chains of implicit rows between material scalars are all that makes a
difference. So rows may come in any order and any number of times, and a row adds nothing that is not
implicit, leads from a type to itself, or is implied by others. Rows about a type that the graph lacks
add nothing unless two others are chained through it that are not chained without it. -/
theorem Snapshot.generate_depends_on_chains (types : List TypeRecord) (casts : List Cast) (config : Config) :
    (∀ casts', SameChains types casts casts' →
      Snapshot.generate ⟨types, casts⟩ config = Snapshot.generate ⟨types, casts'⟩ config) ∧
      (∀ casts', (∀ a b, ImplicitlyCasts casts a b ↔ ImplicitlyCasts casts' a b) →
        Snapshot.generate ⟨types, casts⟩ config = Snapshot.generate ⟨types, casts'⟩ config) ∧
      (∀ c : Cast, c.allowImplicit = false ∨ c.source = c.target ∨
        TransGen (ImplicitlyCasts casts) c.source c.target →
        Snapshot.generate ⟨types, c :: casts⟩ config = Snapshot.generate ⟨types, casts⟩ config) ∧
      ∀ id, (∀ r ∈ types, r.id ≠ id) →
        (∀ a b, ImplicitlyCasts casts a id → ImplicitlyCasts casts id b → a ≠ id → b ≠ id →
          ReflTransGen (ImplicitlyCasts (rowsWithout id casts)) a b) →
        Snapshot.generate ⟨types, rowsWithout id casts⟩ config = Snapshot.generate ⟨types, casts⟩ config := by
  refine ⟨fun casts' same => generate_congr same config, fun casts' rows => ?_, fun c implied => ?_,
    fun id unknown around => ?_⟩
  · exact generate_congr (.of_rows types rows) config
  · exact generate_congr (.cons implied) config
  · exact generate_congr (.rowsWithout unknown around) config

namespace ThroughUnknown

def narrow : TypeRecord :=
  ⟨⟨"narrow"⟩, "std::narrow", .scalar ⟨false, [], [], none⟩⟩

def wide : TypeRecord :=
  ⟨⟨"wide"⟩, "std::wide", .scalar ⟨false, [], [], none⟩⟩

def types : List TypeRecord :=
  [narrow, wide]

/-- The graph has no such type. -/
def middle : TypeId :=
  ⟨"middle"⟩

def rows : List Cast :=
  [.free narrow.id middle, .free middle wide.id]

def config : Config :=
  Config.withoutRoot {}

/-- A chain through the unknown type is as good as a row of its own, next to which a cast to the
narrow type itself adds nothing. -/
theorem chain_as_row :
    SameChains types rows [.free narrow.id wide.id] ∧
      Snapshot.generate ⟨types, rows⟩ config = Snapshot.generate ⟨types, [.free narrow.id wide.id]⟩ config ∧
      Snapshot.generate ⟨types, .free narrow.id narrow.id :: rows⟩ config =
        Snapshot.generate ⟨types, rows⟩ config := by
  have into : ImplicitlyCasts rows narrow.id middle := ⟨_, List.mem_cons_self .., rfl, rfl, rfl⟩
  have out : ImplicitlyCasts rows middle wide.id :=
    ⟨_, List.mem_cons_of_mem _ (List.mem_cons_self ..), rfl, rfl, rfl⟩
  have row : ImplicitlyCasts [.free narrow.id wide.id] narrow.id wide.id :=
    ⟨_, List.mem_cons_self .., rfl, rfl, rfl⟩
  have ends {casts : List Cast} (none : ∀ c ∈ casts, c.source ≠ wide.id) (id : TypeId) :
      ¬TransGen (ImplicitlyCasts casts) wide.id id := by
    intro path
    obtain ⟨_, ⟨c, listed, _, source, _⟩, _⟩ := TransGen.head'_iff.mp path
    exact none c listed source
  have same : SameChains types rows [.free narrow.id wide.id] := by
    intro a left b right _ _ other
    rcases List.mem_pair.mp left with rfl | rfl <;> rcases List.mem_pair.mp right with rfl | rfl
    · exact absurd rfl other
    · exact iff_of_true (.tail (.single into) out) (.single row)
    · exact iff_of_false (ends (by decide) _) (ends (by decide) _)
    · exact absurd rfl other
  obtain ⟨chains, _, adds, _⟩ := Snapshot.generate_depends_on_chains types rows config
  exact ⟨same, chains _ same, adds (.free narrow.id narrow.id) (Or.inr (Or.inl rfl))⟩

/-- Both rows are about the unknown type, and yet they are not left out. -/
theorem unknown_rows_matter :
    (∀ r ∈ types, r.id ≠ middle) ∧ (∀ c ∈ rows, c.source = middle ∨ c.target = middle) ∧
      Snapshot.generate ⟨types, rows⟩ config ≠ Snapshot.generate ⟨types, []⟩ config := by
  have castMaps : (Snapshot.generate ⟨types, rows⟩ config).map (fun g => g.tree.get? castUnit) ≠
      (Snapshot.generate ⟨types, []⟩ config).map fun g => g.tree.get? castUnit := by
    cbv
    simp
  exact ⟨by decide, by decide, fun same => castMaps (by rw [same])⟩

end ThroughUnknown
end QueryShapes
