import QueryShapes.Generation
import QueryShapes.Proofs.BaseOrder
import QueryShapes.Proofs.Outcome

namespace QueryShapes
open Relation

namespace OutputTree

theorem lookup_updateUnits (path other : String) (f : OutputUnit → OutputUnit)
    (units : List (String × OutputUnit)) :
    (updateUnits path f units).lookup other =
      if other = path then some (f ((units.lookup path).getD {})) else units.lookup other := by
  induction units with
  | nil => by_cases same : other = path <;> simp [updateUnits, same]
  | cons entry units ih =>
    obtain ⟨here, u⟩ := entry
    by_cases atHere : here = path
    · subst here
      by_cases same : other = path
      · simp [updateUnits, same]
      · have apart : (other == path) = false := by simpa using same
        simp [updateUnits, List.lookup_cons, same, apart]
    · have passed : (path == here) = false := by simpa using Ne.symm atHere
      rw [updateUnits, if_neg atHere, List.lookup_cons, ih, List.lookup_cons, List.lookup_cons, passed]
      by_cases same : other = here
      · subst other
        simp [atHere]
      · have apart : (other == here) = false := by simpa using same
        simp [apart]

theorem get?_update (t : OutputTree) (path other : String) (f : OutputUnit → OutputUnit) :
    (t.update path f).get? other = if other = path then some (f ((t.get? path).getD {})) else t.get? other :=
  lookup_updateUnits path other f t.units

theorem get?_foldl_update {α : Type} (path : α → String) (f : α → OutputUnit → OutputUnit) {other : String}
    (apart : ∀ a, other ≠ path a) (items : List α) (t : OutputTree) :
    (items.foldl (fun t a => t.update (path a) (f a)) t).get? other = t.get? other := by
  induction items generalizing t with
  | nil => rfl
  | cons a items ih => rw [List.foldl_cons, ih, get?_update, if_neg (apart a)]

end OutputTree

theorem moduleUnit_ne_baseUnit (m : String) : baseUnit ≠ moduleUnit m := by
  intro same
  have heads := congrArg (fun text => text.toList.head?) same
  simp [baseUnit, moduleUnit, moduleSpecifier, String.toList_append] at heads

theorem indexUnit_ne_moduleUnit (m : String) : indexUnit ≠ moduleUnit m := by
  intro same
  have heads := congrArg (fun text => text.toList.head?) same
  simp [indexUnit, moduleUnit, moduleSpecifier, String.toList_append] at heads

/-- Enums are written to units of modules only. -/
theorem get?_writeEnums {path : String} (apart : ∀ m, path ≠ moduleUnit m) (enums : List Enumeration) :
    (writeEnums enums {}).get? path = none :=
  OutputTree.get?_foldl_update (fun e : Enumeration => moduleUnit e.name.moduleName) (fun e u => u.addBody e.lines)
    (fun _ => apart _) enums {}

/-- Besides the base unit, shapes are written to units of modules only. -/
theorem get?_writeObjects {path : String} (apart : ∀ m, path ≠ moduleUnit m) (lib : ClientLibrary)
    (enumModules : List String) (definitions : List ObjectDefinition) (t : OutputTree) :
    (writeObjects lib enumModules definitions t).get? path =
      (t.update baseUnit fun u => { u.addHead (baseHead lib enumModules) with
        body := baseBody lib definitions }).get?
        path :=
  OutputTree.get?_foldl_update (fun d : ObjectDefinition => moduleUnit d.name.moduleName)
    (fun d u => (ObjectDefinition.addImports lib d.name.moduleName u).addBody (d.exportLines lib))
    (fun _ => apart _) definitions _

namespace Scope

/-- What a scope emits for its enums and objects. -/
def emission (s : Scope) (casts : CastMap) (enums : List Enumeration) (objects : List ObjectDefinition) :
    Generation :=
  let tree := writeObjects s.config.library (enumModules enums) objects (writeEnums enums {})
  let tree := writeIndex (addNew (enumModules enums) (objectModules objects)) tree
  ⟨writeCastMaps (s.scalarMatrix casts) s.objectMatrix tree, enums.length, objects.length,
    (s.scalarMatrix casts).ambiguities ++ s.objectMatrix.ambiguities⟩

theorem generate_eq_ok_iff {s : Scope} {casts : CastMap} {g : Generation} :
    s.generate casts = .ok g ↔ ∃ enums objects,
      s.enumerations = .ok enums ∧ s.objectDefinitions = .ok objects ∧ s.emission casts enums objects = g := by
  unfold generate
  simp only [bind_eq_ok_iff, mapError_eq_ok_iff, pure, Except.pure, Except.ok.injEq]
  constructor
  · rintro ⟨enums, listed, objects, defined, same⟩
    exact ⟨enums, objects, listed, defined, same⟩
  · rintro ⟨enums, objects, listed, defined, same⟩
    exact ⟨enums, listed, objects, defined, same⟩

theorem baseUnit_emission (s : Scope) (casts : CastMap) (enums : List Enumeration)
    (objects : List ObjectDefinition) :
    (s.emission casts enums objects).tree.get? baseUnit =
      some ⟨baseHead s.config.library (enumModules enums), baseBody s.config.library objects, []⟩ := by
  have casts' : baseUnit ≠ castUnit := by decide
  have index : baseUnit ≠ indexUnit := by decide
  rw [emission, writeCastMaps, OutputTree.get?_update, if_neg casts', writeIndex, OutputTree.get?_update,
    if_neg index, get?_writeObjects moduleUnit_ne_baseUnit, OutputTree.get?_update, if_pos rfl,
    get?_writeEnums moduleUnit_ne_baseUnit]
  rfl

theorem indexUnit_emission (s : Scope) (casts : CastMap) (enums : List Enumeration)
    (objects : List ObjectDefinition) :
    (s.emission casts enums objects).tree.get? indexUnit =
      some ⟨indexHead (addNew (enumModules enums) (objectModules objects)),
        indexBody (addNew (enumModules enums) (objectModules objects)), []⟩ := by
  have casts' : indexUnit ≠ castUnit := by decide
  have base : indexUnit ≠ baseUnit := by decide
  rw [emission, writeCastMaps, OutputTree.get?_update, if_neg casts', writeIndex, OutputTree.get?_update,
    if_pos rfl, get?_writeObjects indexUnit_ne_moduleUnit, OutputTree.get?_update, if_neg base,
    get?_writeEnums indexUnit_ne_moduleUnit]
  rfl

theorem get?_baseUnit_emission (s : Scope) (casts : CastMap) (enums : List Enumeration)
    (objects : List ObjectDefinition) :
    ∃ unit, (s.emission casts enums objects).tree.get? baseUnit = some unit ∧
      unit.body = baseBody s.config.library objects ∧
        baseHead s.config.library (enumModules enums) ⊆ unit.head :=
  ⟨_, s.baseUnit_emission casts enums objects, rfl, List.Subset.refl _⟩

end Scope

/-- The scope in which a snapshot is generated. -/
def Snapshot.scope (snapshot : Snapshot) (config : Config) : Except SchemaError Scope := do
  let graph ← Graph.build snapshot.types
  let order ← graph.order
  Scope.make graph order config

theorem Snapshot.generate_eq_ok_iff {snapshot : Snapshot} {config : Config} {g : Generation} :
    snapshot.generate config = .ok g ↔
      ∃ s, snapshot.scope config = .ok s ∧ s.generate (.ofImplicit snapshot.casts) = .ok g := by
  unfold Snapshot.generate Snapshot.scope
  simp only [bind_eq_ok_iff, mapError_eq_ok_iff]
  constructor
  · rintro ⟨graph, built, order, ordered, s, made, generated⟩
    exact ⟨s, ⟨graph, built, order, ordered, made⟩, generated⟩
  · rintro ⟨s, ⟨graph, built, order, ordered, made⟩, generated⟩
    exact ⟨graph, built, order, ordered, s, made, generated⟩

namespace Scope

/-- The graph of a scope is well formed, and the scope has its order. -/
structure IsOrdered (s : Scope) : Prop where
  wellFormed : Graph.IsWellFormed s.graph.records
  ordered : s.graph.order = .ok s.order

theorem of_snapshot {snapshot : Snapshot} {config : Config} {s : Scope} (made : snapshot.scope config = .ok s) :
    s.IsOrdered ∧ s.graph.records = snapshot.types := by
  simp only [Snapshot.scope, bind_eq_ok_iff, make, map_eq_ok_iff] at made
  obtain ⟨g, built, o, ordered, root, _, rfl⟩ := made
  obtain ⟨rfl, wellFormed⟩ := Graph.build_eq_ok_iff.mp built
  exact ⟨⟨wellFormed, ordered⟩, rfl⟩

/-- The types of an ordered scope, bases first. -/
theorem IsOrdered.records_order {s : Scope} (ordered : s.IsOrdered) :
    Graph.PostOrdered s.graph TypeRecord.name TypeRecord.bases (s.order.records s.graph) ∧
      ∀ r ∈ s.graph.records, r.isOrderable = true → r.name ∈ (s.order.records s.graph).map TypeRecord.name := by
  rcases Graph.order_outcome ordered.wellFormed with ⟨done, same, postOrdered, covers⟩ | ⟨e, failed, _⟩
  · have sameOrder : s.order = ⟨done.map TypeRecord.id⟩ := Except.ok.inj (ordered.ordered.symm.trans same)
    have records : s.order.records s.graph = done := by
      rw [sameOrder, TypeOrder.records, List.filterMap_map]
      refine (List.filterMap_congr fun r member => ?_).trans List.filterMap_some
      exact Graph.get?_of_mem ordered.wellFormed.ids_nodup (postOrdered.mem member)
    rw [records]
    exact ⟨postOrdered, covers⟩
  · rw [ordered.ordered] at failed
    cases failed

theorem isOrderable_of_keepsShape {s : Scope} {r : TypeRecord} (kept : s.keepsShape r = true) :
    r.isOrderable = true := by
  unfold keepsShape TypeRecord.object? at kept
  unfold TypeRecord.isOrderable
  split at kept <;> simp_all

theorem isOrderable_of_keepsEnum {s : Scope} {r : TypeRecord} (kept : s.keepsEnum r = true) :
    r.isOrderable = true := by
  unfold keepsEnum TypeRecord.scalar? at kept
  unfold TypeRecord.isOrderable
  split at kept <;> simp_all

/-- Types that differ by name all have a place in the order. -/
theorem IsOrdered.mem_records_order {s : Scope} (ordered : s.IsOrdered)
    (names : (s.graph.records.map TypeRecord.name).Nodup) {r : TypeRecord} (member : r ∈ s.graph.records)
    (orderable : r.isOrderable = true) : r ∈ s.order.records s.graph := by
  obtain ⟨postOrdered, covers⟩ := ordered.records_order
  obtain ⟨r', inOrder, sameName⟩ := List.mem_map.mp (covers r member orderable)
  cases Graph.keyed_of_names_nodup names r' (postOrdered.mem inOrder) r member sameName
  exact inOrder

theorem IsOrdered.mem_shapeTypes_iff {s : Scope} (ordered : s.IsOrdered)
    (names : (s.graph.records.map TypeRecord.name).Nodup) {r : TypeRecord} :
    r ∈ s.shapeTypes ↔ r ∈ s.graph.records ∧ s.keepsShape r = true := by
  rw [shapeTypes, List.mem_filter]
  constructor
  · rintro ⟨member, kept⟩
    exact ⟨ordered.records_order.1.mem member, kept⟩
  · rintro ⟨member, kept⟩
    exact ⟨ordered.mem_records_order names member (isOrderable_of_keepsShape kept), kept⟩

theorem IsOrdered.mem_enumTypes {s : Scope} (ordered : s.IsOrdered)
    (names : (s.graph.records.map TypeRecord.name).Nodup) {r : TypeRecord} (member : r ∈ s.graph.records)
    (kept : s.keepsEnum r = true) : r ∈ s.enumTypes :=
  List.mem_filter.mpr ⟨ordered.mem_records_order names member (isOrderable_of_keepsEnum kept), kept⟩

/-- No shape is emitted before one of its bases. -/
theorem IsOrdered.pairwise_shapeTypes {s : Scope} (ordered : s.IsOrdered)
    (names : (s.graph.records.map TypeRecord.name).Nodup) :
    s.shapeTypes.Pairwise fun r base => ¬TransGen s.graph.IsBase r base :=
  (ordered.records_order.1.pairwise (Graph.keyed_of_names_nodup names)).filter _

theorem IsOrdered.nodup_shapeTypes {s : Scope} (ordered : s.IsOrdered) : s.shapeTypes.Nodup :=
  ordered.records_order.1.keys_nodup.of_map.filter _

theorem IsOrdered.acc {s : Scope} (ordered : s.IsOrdered) (names : (s.graph.records.map TypeRecord.name).Nodup)
    {r : TypeRecord} (member : r ∈ s.graph.records) : Acc (TransGen fun b r => s.graph.IsBase r b) r :=
  (Graph.acc_isBase_of_order ordered.wellFormed names ordered.ordered member).transGen

theorem objectDefinitions_eq_ok_iff {s : Scope} {objects : List ObjectDefinition} :
    s.objectDefinitions = .ok objects ↔
      List.Forall₂ (fun r d => r.qualifiedName = .ok d.name ∧ s.composite r = .ok d.composite)
        s.shapeTypes objects := by
  simp only [objectDefinitions, mapM_eq_ok_iff, bind_eq_ok_iff, mapError_eq_ok_iff, pure, Except.pure,
    Except.ok.injEq]
  constructor
  · refine List.Forall₂.imp fun r d => ?_
    rintro ⟨name, named, c, composed, rfl⟩
    exact ⟨named, composed⟩
  · refine List.Forall₂.imp fun r d => ?_
    rintro ⟨named, composed⟩
    exact ⟨_, named, _, composed, rfl⟩

theorem composite_eq_ok_iff {s : Scope} {r : TypeRecord} {c : Composite} :
    s.composite r = .ok c ↔ ∃ found groups own, s.inheritances r = .ok found ∧
      List.Forall₂ (fun i group => s.inheritedMembers i = .ok group) found groups ∧
      s.declared r = .ok own ∧ .ofMembers groups.flatten own = c := by
  simp only [composite, bind_eq_ok_iff, mapError_eq_ok_iff, mapM_eq_ok_iff, pure, Except.pure, Except.ok.injEq]
  constructor
  · rintro ⟨found, collected, groups, members, own, declared, same⟩
    exact ⟨found, groups, own, collected, members, declared, same⟩
  · rintro ⟨found, groups, own, collected, members, declared, same⟩
    exact ⟨found, collected, groups, members, own, declared, same⟩

end Scope
end QueryShapes
