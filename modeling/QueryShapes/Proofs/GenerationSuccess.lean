import QueryShapes.Proofs.ClosedOutput
import QueryShapes.Proofs.DeclaredNames
import QueryShapes.Proofs.Failures

namespace QueryShapes
open Relation

namespace Graph

/-- The values of a type are represented: it unfolds to no object. -/
def IsRepresented (g : Graph) (id : TypeId) : Prop :=
  ∃ r, g.get? id = some r ∧ ∀ o, ReflTransGen g.UnfoldsTo r o → o.isObject = false

/-- A pointer leads to an object whose members are known, or to values that are represented,
and so are the values of its link properties. -/
def Fits (g : Graph) (p : Pointer) : Prop :=
  (∃ r, g.get? p.target = some r ∧
    if p.isLink || (p.kind == .computable && r.isObject) then
      ∃ o groups, r.object? = some o ∧ g.groups r o = .ok groups
    else g.IsRepresented p.target) ∧
  ∀ q ∈ p.linkProperties, g.IsRepresented q.target

theorem named?_eq_some_iff {g : Graph} (names : (g.records.map TypeRecord.name).Nodup) {name : String}
    {r : TypeRecord} : g.named? name = some r ↔ r ∈ g.records ∧ r.name = name := by
  constructor
  · intro found
    exact ⟨Scope.mem_of_named? found, by simpa using List.find?_some found⟩
  · rintro ⟨member, named⟩
    cases found : g.named? name with
    | none =>
      have absent := List.find?_eq_none.mp found r (List.mem_reverse.mpr member)
      simp [named] at absent
    | some r' =>
      have sameName : r'.name = name := by simpa using List.find?_some found
      rw [keyed_of_names_nodup names r' (Scope.mem_of_named? found) r member (sameName.trans named.symm)]

end Graph

namespace Scope

section Built

variable {s : Scope} (wellFormed : Graph.IsWellFormed s.graph.records)
include wellFormed

theorem exists_typeExpr_iff_isRepresented (referencing : String) {id : TypeId} :
    (∃ e, s.typeExpr referencing id = .ok e) ↔ s.graph.IsRepresented id := by
  cases found : s.graph.get? id with
  | none =>
    have absent : ¬s.graph.IsRepresented id := by simp [Graph.IsRepresented, found]
    rw [typeExpr_eq wellFormed, represent, Graph.resolve_eq_error_iff.mpr ⟨found, rfl⟩]
    simp [absent]
  | some r => simp [exists_typeExpr_iff wellFormed found, Graph.IsRepresented, found]

theorem exists_pointerTarget_iff {owner : String} {p : Pointer} {r : TypeRecord}
    (found : s.graph.get? p.target = some r) :
    (∃ target, s.pointerTarget owner p = .ok target) ↔
      if p.isLink || (p.kind == .computable && r.isObject) then
        ∃ o groups, r.object? = some o ∧ s.graph.groups r o = .ok groups
      else s.graph.IsRepresented p.target := by
  rw [pointerTarget, Graph.resolve_eq_ok_iff.mpr found]
  dsimp only
  split
  · rw [exists_linkTarget_iff wellFormed]
    simp only [Graph.resolveObject_eq_ok_iff, found, Option.some_inj]
    constructor
    · rintro ⟨_, o, groups, ⟨rfl, isObject⟩, grouped⟩
      exact ⟨o, groups, isObject, grouped⟩
    · rintro ⟨o, groups, isObject, grouped⟩
      exact ⟨r, o, groups, ⟨rfl, isObject⟩, grouped⟩
  · rw [← exists_typeExpr_iff_isRepresented wellFormed owner]
    simp [mapError_eq_ok_iff, map_eq_ok_iff]

/-- Whether a pointer is described does not depend on what is kept. -/
theorem exists_describe_iff {owner : String} {p : Pointer} :
    (∃ d, s.describe owner p = .ok d) ↔ s.graph.Fits p := by
  have described : (∃ d, s.describe owner p = .ok d) ↔
      (∃ target, s.pointerTarget owner p = .ok target) ∧
        ∃ properties, p.linkProperties.mapM (s.linkProperty owner) = .ok properties := by
    simp [describe, bind_eq_ok_iff, pure, Except.pure]
  have properties : (∃ properties, p.linkProperties.mapM (s.linkProperty owner) = .ok properties) ↔
      ∀ q ∈ p.linkProperties, s.graph.IsRepresented q.target := by
    rw [exists_mapM_eq_ok_iff]
    refine forall₂_congr fun q _ => ?_
    rw [← exists_typeExpr_iff_isRepresented wellFormed owner]
    simp [linkProperty, mapError_eq_ok_iff, map_eq_ok_iff]
  rw [described, properties, Graph.Fits]
  refine and_congr_left' ?_
  cases found : s.graph.get? p.target with
  | none => simp [pointerTarget, Graph.resolve_eq_error_iff.mpr ⟨found, rfl⟩]
  | some r => simp [exists_pointerTarget_iff wellFormed found]

theorem exists_declared_iff {r : TypeRecord} :
    (∃ own, s.declared r = .ok own) ↔ ∀ p ∈ r.pointers, s.graph.Fits p := by
  rw [declared, exists_mapM_eq_ok_iff]
  exact forall₂_congr fun p _ => exists_describe_iff wellFormed

/-- A composite is made of the pointers of its type and of the elided bases from which it inherits. -/
theorem exists_composite_iff {r : TypeRecord} (member : r ∈ s.graph.records) {found : List Inheritance}
    (collected : s.inheritances r = .ok found) :
    (∃ c, s.composite r = .ok c) ↔
      (∀ p ∈ r.pointers, s.graph.Fits p) ∧ ∀ b, .elided b ∈ found → ∀ p ∈ b.pointers, s.graph.Fits p := by
  have composed : (∃ c, s.composite r = .ok c) ↔
      (∃ own, s.declared r = .ok own) ∧ ∃ groups, found.mapM s.inheritedMembers = .ok groups := by
    simp [composite, collected, bind_eq_ok_iff, pure, Except.pure, mapError_eq_ok_iff, and_comm]
  have inherited : (∃ groups, found.mapM s.inheritedMembers = .ok groups) ↔
      ∀ b, .elided b ∈ found → ∃ own, s.declared b = .ok own := by
    rw [exists_mapM_eq_ok_iff]
    constructor
    · intro given b elided
      obtain ⟨_, group⟩ := given _ elided
      obtain ⟨own, declared, _⟩ := map_eq_ok_iff.mp group
      exact ⟨own, declared⟩
    · intro declared i listed
      cases i with
      | kept base =>
        obtain ⟨path, kept⟩ := (transGen_of_inheritances collected).1 base listed
        obtain ⟨symbol, named⟩ :=
          exists_symbolOf wellFormed (Graph.mem_of_reflTransGen path.to_reflTransGen member) kept
        exact ⟨[.spread symbol], by rw [inheritedMembers, named]; rfl⟩
      | elided base =>
        obtain ⟨own, declared⟩ := declared base listed
        exact ⟨_, map_eq_ok_iff.mpr ⟨own, declared, rfl⟩⟩
  rw [composed, inherited, exists_declared_iff wellFormed]
  exact and_congr_right fun _ => forall₂_congr fun b _ => exists_declared_iff wellFormed

theorem exists_generate_iff {casts : CastMap} :
    (∃ g, s.generate casts = .ok g) ↔ ∀ r ∈ s.shapeTypes, ∃ c, s.composite r = .ok c := by
  obtain ⟨enums, listed⟩ := exists_enumerations wellFormed
  have defined : (∃ g, s.generate casts = .ok g) ↔ ∃ objects, s.objectDefinitions = .ok objects := by
    simp [generate_eq_ok_iff, listed]
  rw [defined, objectDefinitions, exists_mapM_eq_ok_iff]
  refine forall₂_congr fun r inShapes => ?_
  obtain ⟨inOrder, kept⟩ := List.mem_filter.mp inShapes
  obtain ⟨q, named⟩ :=
    wellFormed.exists_qualifiedName (mem_of_mem_records inOrder) (isOrderable_of_keepsShape kept)
  simp [named, bind_eq_ok_iff, pure, Except.pure, mapError_eq_ok_iff]

end Built

/-- The composites together are made of all pointers of kept types and of their transitive bases. -/
theorem IsOrdered.exists_composites_iff {s : Scope} (ordered : s.IsOrdered)
    (names : (s.graph.records.map TypeRecord.name).Nodup) :
    (∀ r ∈ s.shapeTypes, ∃ c, s.composite r = .ok c) ↔
      ∀ r ∈ s.graph.records, s.keepsShape r = true → ∀ b, ReflTransGen s.graph.IsBase r b →
        ∀ p ∈ b.pointers, s.graph.Fits p := by
  constructor
  · intro composed r member kept b path
    -- Kept bases have composites of their own, so elided ones are all that is left to a type.
    induction ordered.acc names member with
    | intro r _ ih =>
      obtain ⟨found, collected⟩ := exists_inheritances ordered.wellFormed member
      have inShapes := (ordered.mem_shapeTypes_iff names).mpr ⟨member, kept⟩
      obtain ⟨own, elided⟩ := (exists_composite_iff ordered.wellFormed member collected).mp (composed r inShapes)
      rcases reflTransGen_iff_eq_or_transGen.mp path with rfl | path
      · exact own
      · obtain ⟨meetings, seen, walk, rfl⟩ := walks_of_inheritances collected
        rcases walk.covers path with met | ⟨k, met, path⟩
        · exact elided b (List.mem_filterMap.mpr ⟨_, met, rfl⟩)
        · obtain ⟨toKept, keeps⟩ := (transGen_of_inheritances collected).1 k (List.mem_filterMap.mpr ⟨_, met, rfl⟩)
          exact ih k (transGen_swap.mpr toKept) (Graph.mem_of_reflTransGen toKept.to_reflTransGen member) keeps path
  · intro fits r inShapes
    obtain ⟨member, kept⟩ := (ordered.mem_shapeTypes_iff names).mp inShapes
    obtain ⟨found, collected⟩ := exists_inheritances ordered.wellFormed member
    refine (exists_composite_iff ordered.wellFormed member collected).mpr ⟨fits r member kept r .refl,
      fun b elided => ?_⟩
    exact fits r member kept b ((transGen_of_inheritances collected).2 b elided).to_reflTransGen

end Scope

namespace Config

/-- The second configuration has the root of the first, and leaves out what the first leaves out. -/
structure Narrows (c c' : Config) : Prop where
  root : c'.root = c.root
  excluded : c.excludedModules ⊆ c'.excludedModules

theorem narrows_exclude (c : Config) (m : String) : c.Narrows (c.exclude m) := by
  unfold exclude
  split
  · exact ⟨rfl, List.Subset.refl _⟩
  · exact ⟨rfl, List.subset_append_left _ _⟩

end Config

namespace Scope

section Narrows

variable {s : Scope} {config : Config} (narrows : s.config.Narrows config)
include narrows

theorem excludes_of_narrows (name : String) (excluded : s.excludes name = true) :
    { s with config }.excludes name = true := by
  unfold excludes at excluded ⊢
  split at excluded
  · obtain ⟨m, listed, inModule⟩ := List.any_eq_true.mp excluded
    exact List.any_eq_true.mpr ⟨m, narrows.excluded listed, inModule⟩
  · cases excluded

theorem keepsShape_of_narrows {r : TypeRecord} (kept : { s with config }.keepsShape r = true) :
    s.keepsShape r = true := by
  have excluded := excludes_of_narrows narrows r.name
  simp only [keepsShape, keepsObject, Bool.and_eq_true, Bool.not_eq_true'] at kept ⊢
  refine ⟨kept.1, ⟨kept.2.1.1, ?_⟩, kept.2.2⟩
  by_contra here
  rw [excluded (by simpa using here)] at kept
  simp at kept

theorem keepsEnum_of_narrows {r : TypeRecord} (kept : { s with config }.keepsEnum r = true) :
    s.keepsEnum r = true := by
  have excluded := excludes_of_narrows narrows r.name
  simp only [keepsEnum, Bool.and_eq_true, Bool.not_eq_true'] at kept ⊢
  refine ⟨kept.1, ?_⟩
  by_contra here
  rw [excluded (by simpa using here)] at kept
  simp at kept

theorem sublist_enumTypes : { s with config }.enumTypes.Sublist s.enumTypes :=
  List.monotone_filter_right _ fun _ => keepsEnum_of_narrows narrows

theorem sublist_shapeTypes : { s with config }.shapeTypes.Sublist s.shapeTypes :=
  List.monotone_filter_right _ fun _ => keepsShape_of_narrows narrows

end Narrows

/-- Composites bear the symbols of the kept types. -/
theorem map_symbol_objectDefinitions {s : Scope} {objects : List ObjectDefinition}
    (defined : s.objectDefinitions = .ok objects) :
    objects.map ObjectDefinition.symbol = s.shapeTypes.map fun r => identOf r.name := by
  have symbols : objects.map ObjectDefinition.symbol =
      ((objects.map ObjectDefinition.name).map QualifiedName.text).map identOf := by
    rw [List.map_map, List.map_map]
    rfl
  rw [symbols, map_text_names (forall₂_shapeNames defined), List.map_map]
  rfl

end Scope

namespace Snapshot

section Ordered

variable {snapshot : Snapshot} {g : Graph} {o : TypeOrder} (built : Graph.build snapshot.types = .ok g)
  (ordered : g.order = .ok o)
include built ordered

theorem scope_eq_ok_iff {config : Config} {s : Scope} :
    snapshot.scope config = .ok s ↔ ∃ root, Scope.findRoot g config.root = .ok root ∧ ⟨g, o, config, root⟩ = s := by
  simp only [Snapshot.scope, bind_eq_ok_iff, built, ordered, Scope.make, map_eq_ok_iff, Except.ok.injEq,
    exists_eq_left']

/-- A scope is made when its root is an object. -/
theorem exists_scope_iff (names : (g.records.map TypeRecord.name).Nodup) (config : Config) :
    (∃ s, snapshot.scope config = .ok s) ↔
      ∀ name, config.root = some name → ∃ r ∈ g.records, r.name = name ∧ r.isObject = true := by
  have made : (∃ s, snapshot.scope config = .ok s) ↔ ∃ root, Scope.findRoot g config.root = .ok root := by
    simp [scope_eq_ok_iff built ordered]
  rw [made]
  cases config.root with
  | none => simp [Scope.findRoot]
  | some name =>
    have rooted : (∃ root, Scope.findRoot g (some name) = .ok root) ↔
        ∃ r, g.named? name = some r ∧ r.isObject = true := by
      rw [Scope.findRoot]
      cases g.named? name with
      | none => simp
      | some r => by_cases isObject : r.isObject = true <;> simp [isObject]
    simp [rooted, Graph.named?_eq_some_iff names, and_assoc]

/-- The scope of a narrower configuration differs in its configuration alone. -/
theorem scope_of_narrows {config config' : Config} (narrows : config.Narrows config') {s : Scope}
    (made : snapshot.scope config = .ok s) :
    s.config.Narrows config' ∧ snapshot.scope config' = .ok { s with config := config' } := by
  obtain ⟨root, found, rfl⟩ := (scope_eq_ok_iff built ordered).mp made
  refine ⟨narrows, (scope_eq_ok_iff built ordered).mpr ⟨root, ?_, rfl⟩⟩
  rw [narrows.root]
  exact found

/-- Within a scope, pointers decide. -/
theorem exists_generate_iff (wellFormed : Graph.IsWellFormed g.records)
    (names : (g.records.map TypeRecord.name).Nodup) {config : Config} {s : Scope}
    (made : snapshot.scope config = .ok s) :
    (∃ generation, snapshot.generate config = .ok generation) ↔
      ∀ r ∈ g.records, s.keepsShape r = true → ∀ b, ReflTransGen g.IsBase r b → ∀ p ∈ b.pointers, g.Fits p := by
  have within : (∃ generation, snapshot.generate config = .ok generation) ↔
      ∃ generation, s.generate (.ofImplicit snapshot.casts) = .ok generation := by
    simp [Snapshot.generate_eq_ok_iff, made]
  obtain ⟨root, _, rfl⟩ := (scope_eq_ok_iff built ordered).mp made
  rw [within, Scope.exists_generate_iff wellFormed]
  exact Scope.IsOrdered.exists_composites_iff ⟨wellFormed, ordered⟩ names

end Ordered

/-- In a graph of distinct names, something is generated when the root is an object and every pointer
of a kept type or of one of its transitive bases is described. So more modules may be left out, and
then fewer of the same enums and composites are emitted. -/
theorem generates_iff {snapshot : Snapshot} {g : Graph} {o : TypeOrder}
    (built : Graph.build snapshot.types = .ok g) (ordered : g.order = .ok o)
    (names : (snapshot.types.map TypeRecord.name).Nodup) (config : Config) :
    ((∃ generation, snapshot.generate config = .ok generation) ↔
      (∀ name, config.root = some name → ∃ r ∈ g.records, r.name = name ∧ r.isObject = true) ∧
        ∀ s, snapshot.scope config = .ok s → ∀ r ∈ g.records, s.keepsShape r = true →
          ∀ b, ReflTransGen g.IsBase r b → ∀ p ∈ b.pointers, ∃ d, s.describe b.name p = .ok d) ∧
      (∀ m, config.Narrows (config.exclude m)) ∧
        ∀ config' generation, config.Narrows config' → snapshot.generate config = .ok generation →
          ∃ generation', snapshot.generate config' = .ok generation' ∧
            (∃ s s', snapshot.scope config = .ok s ∧ snapshot.scope config' = .ok s' ∧
              s'.enumTypes.Sublist s.enumTypes) ∧
            ∃ base base', generation.tree.get? baseUnit = some base ∧ generation'.tree.get? baseUnit = some base' ∧
              (returnedMembers base'.body).Sublist (returnedMembers base.body) := by
  obtain ⟨rfl, wellFormed⟩ := Graph.build_eq_ok_iff.mp built
  have rooted := exists_scope_iff built ordered names config
  have generates {config : Config} {s : Scope} (made : snapshot.scope config = .ok s) :=
    exists_generate_iff built ordered wellFormed names made
  refine ⟨⟨?_, ?_⟩, config.narrows_exclude, fun config' generation narrows generated => ?_⟩
  · rintro ⟨generation, generated⟩
    obtain ⟨s, made, _⟩ := Snapshot.generate_eq_ok_iff.mp generated
    refine ⟨rooted.mp ⟨s, made⟩, fun s made r member kept b path p declared => ?_⟩
    have fits := (generates made).mp ⟨generation, generated⟩ r member kept b path p declared
    obtain ⟨root, _, rfl⟩ := (scope_eq_ok_iff built ordered).mp made
    exact (Scope.exists_describe_iff wellFormed).mpr fits
  · rintro ⟨isRooted, described⟩
    obtain ⟨s, made⟩ := rooted.mpr isRooted
    refine (generates made).mpr fun r member kept b path p declared => ?_
    have known := described s made r member kept b path p declared
    obtain ⟨root, _, rfl⟩ := (scope_eq_ok_iff built ordered).mp made
    exact (Scope.exists_describe_iff wellFormed).mp known
  · obtain ⟨s, made, emitted⟩ := Snapshot.generate_eq_ok_iff.mp generated
    obtain ⟨narrows', made'⟩ := scope_of_narrows built ordered narrows made
    have fits := (generates made).mp ⟨generation, generated⟩
    obtain ⟨generation', generated'⟩ := (generates made').mpr fun r member kept =>
      fits r member (Scope.keepsShape_of_narrows narrows' kept)
    refine ⟨generation', generated', ⟨s, _, made, made', Scope.sublist_enumTypes narrows'⟩, ?_⟩
    obtain ⟨s', again, emitted'⟩ := Snapshot.generate_eq_ok_iff.mp generated'
    cases made'.symm.trans again
    obtain ⟨enums, objects, _, defined, rfl⟩ := Scope.generate_eq_ok_iff.mp emitted
    obtain ⟨enums', objects', _, defined', rfl⟩ := Scope.generate_eq_ok_iff.mp emitted'
    refine ⟨_, _, Scope.baseUnit_emission .., Scope.baseUnit_emission .., ?_⟩
    rw [returnedMembers_baseBody, returnedMembers_baseBody, Scope.map_symbol_objectDefinitions defined,
      Scope.map_symbol_objectDefinitions defined']
    exact (Scope.sublist_shapeTypes narrows').map _

end Snapshot

namespace Gallery

/-- The root is left out along with its module, and all that descends from it stays. -/
theorem generates_without_std :
    Graph.build snapshot.types = .ok scope.graph ∧ scope.graph.order = .ok scope.order ∧
      (snapshot.types.map TypeRecord.name).Nodup ∧
      (∀ p ∈ post.pointers, ∃ d, scope.describe post.name p = .ok d) ∧
      ∃ generation' base', snapshot.generate (Config.exclude {} "std") = .ok generation' ∧
        generation'.tree.get? baseUnit = some base' ∧
        (returnedMembers base'.body).Sublist ["std_Object", "default_Named", "default_Post"] := by
  have built : Graph.build snapshot.types = .ok scope.graph := by cbv
  have ordered : scope.graph.order = .ok scope.order := by cbv
  have names : (snapshot.types.map TypeRecord.name).Nodup := by decide
  obtain ⟨generates, narrows, generatesLess⟩ := Snapshot.generates_iff built ordered names {}
  have described := (generates.mp ⟨generation, generate_eq⟩).2 scope scope_eq post (by simp [scope, snapshot])
    (by cbv) post .refl
  obtain ⟨generation', generated', _, base, base', found, found', fewer⟩ :=
    generatesLess _ generation (narrows "std") generate_eq
  cases (scope.baseUnit_emission (.ofImplicit snapshot.casts) enums objects).symm.trans found
  rw [returnedMembers_baseBody] at fewer
  have symbols : objects.map ObjectDefinition.symbol = ["std_Object", "default_Named", "default_Post"] := by cbv
  rw [symbols] at fewer
  exact ⟨built, ordered, names, described, generation', base', generated', found', fewer⟩

end Gallery
end QueryShapes
