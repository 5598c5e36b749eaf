import QueryShapes.Proofs.ModuleUnits

namespace QueryShapes

namespace OutputTree

theorem map_fst_updateUnits (path : String) (f : OutputUnit → OutputUnit) (units : List (String × OutputUnit)) :
    (updateUnits path f units).map Prod.fst = addNew (units.map Prod.fst) [path] := by
  rw [addNew_singleton]
  induction units with
  | nil => rfl
  | cons entry units ih =>
    obtain ⟨here, u⟩ := entry
    rw [List.map_cons, updateUnits]
    by_cases same : here = path
    · rw [if_pos same, if_pos (same ▸ List.mem_cons_self), List.map_cons]
    · rw [if_neg same, List.map_cons, ih]
      by_cases later : path ∈ units.map Prod.fst
      · rw [if_pos later, if_pos (List.mem_cons_of_mem _ later)]
      · have absent : path ∉ here :: units.map Prod.fst := List.not_mem_cons_of_ne_of_not_mem (Ne.symm same) later
        rw [if_neg later, if_neg absent, List.cons_append]

theorem paths_update (t : OutputTree) (path : String) (f : OutputUnit → OutputUnit) :
    (t.update path f).paths = addNew t.paths [path] :=
  map_fst_updateUnits path f t.units

/-- Units come in the order in which they are first written to. -/
theorem paths_foldl_update {α : Type} (path : α → String) (f : α → OutputUnit → OutputUnit) (items : List α)
    (t : OutputTree) :
    (items.foldl (fun t a => t.update (path a) (f a)) t).paths = addNew t.paths (items.map path) := by
  induction items generalizing t with
  | nil => rfl
  | cons a items ih => rw [List.foldl_cons, ih, paths_update, List.map_cons, ← addNew_cons]

/-- The enums that the units declare. -/
def declaredEnums (t : OutputTree) : List String :=
  t.units.flatMap fun entry => declaredNames 0 "export enum " entry.2.body

/-- A block that is added to a unit comes to those of all units. -/
theorem declaredEnums_update {t : OutputTree} {path : String} {f : OutputUnit → OutputUnit} {added : List String}
    (adds : declaredNames 0 "export enum " (f (t.unitAt path)).body =
      declaredNames 0 "export enum " (t.unitAt path).body ++ added) :
    (t.update path f).declaredEnums.Perm (t.declaredEnums ++ added) := by
  obtain ⟨units⟩ := t
  simp only [declaredEnums, update, unitAt, get?] at adds ⊢
  induction units with
  | nil =>
    rw [updateUnits, List.flatMap_singleton, List.flatMap_nil]
    exact .of_eq adds
  | cons entry units ih =>
    obtain ⟨here, u⟩ := entry
    by_cases same : here = path
    · subst here
      simp only [List.lookup_cons_self, Option.getD_some] at adds
      rw [updateUnits, if_pos rfl, List.flatMap_cons, adds, List.flatMap_cons, List.append_assoc, List.append_assoc]
      exact List.perm_append_comm.append_left _
    · have passed : (path == here) = false := by simpa using Ne.symm same
      rw [List.lookup_cons, passed] at adds
      rw [updateUnits, if_neg same, List.flatMap_cons, List.flatMap_cons, List.append_assoc]
      exact (ih adds).append_left _

theorem declaredEnums_update_of_eq {t : OutputTree} {path : String} {f : OutputUnit → OutputUnit}
    (same : declaredNames 0 "export enum " (f (t.unitAt path)).body =
      declaredNames 0 "export enum " (t.unitAt path).body) :
    (t.update path f).declaredEnums.Perm t.declaredEnums := by
  have added := declaredEnums_update (same.trans (List.append_nil _).symm)
  rwa [List.append_nil] at added

theorem declaredEnums_foldl_update {α : Type} {path : α → String} {f : α → OutputUnit → OutputUnit}
    {added : α → List String}
    (adds : ∀ a u, declaredNames 0 "export enum " (f a u).body = declaredNames 0 "export enum " u.body ++ added a)
    (items : List α) (t : OutputTree) :
    (items.foldl (fun t a => t.update (path a) (f a)) t).declaredEnums.Perm
      (t.declaredEnums ++ items.flatMap added) := by
  induction items generalizing t with
  | nil => rw [List.foldl_nil, List.flatMap_nil, List.append_nil]
  | cons a items ih =>
    rw [List.foldl_cons, List.flatMap_cons, ← List.append_assoc]
    exact (ih _).trans ((declaredEnums_update (adds a _)).append_right _)

end OutputTree

section Blocks

theorem declaredEnums_baseBody (lib : ClientLibrary) (objects : List ObjectDefinition) :
    declaredNames 0 "export enum " (baseBody lib objects) = [] := by
  rw [baseBody, declaredNames_append, declaredNames_append, declaredNames_zero_nested]
  decide

theorem declaredEnums_indexBody (modules : List String) :
    declaredNames 0 "export enum " (indexBody modules) = [] := by
  rw [indexBody, declaredNames_append, declaredNames_append, declaredNames_zero_nested]
  decide

end Blocks

namespace Scope

/-- The modules of the enums and then those of the shapes, each where it comes first. -/
def modules (s : Scope) : List String :=
  (((s.enumTypes ++ s.shapeTypes).filterMap fun r => r.qualifiedName.toOption).map
    QualifiedName.moduleName).eraseDups

/-- The unit at a path, by the enums and objects of the modules that share it. An object brings the
imports of the library and of the base object, each once. The exports are the enums, then the objects
and at last the cast maps: an enum lists its values under their names, an object stands for its shape
in the base object, and the cast maps are those of the scope. -/
structure LaysOutUnit (s : Scope) (casts : CastMap) (path : String) (enums : List Enumeration)
    (objects : List ObjectDefinition) (u : OutputUnit) : Prop where
  head : (objects = [] ∧ u.head = []) ∨
    ∃ d ∈ objects, u.head = [.of s.config.library.importLine, baseImport d.name.moduleName] ∧
      List.Forall₂ (fun imported line => line.importSource? imported.1 = some imported.2)
        [("\x7b" ++ s.config.library.space ++ "\x7d", s.config.library.moduleName),
          ("base", pathToRoot d.name.moduleName ++ "__base__")] u.head
  body : u.body = enums.flatMap Enumeration.lines ++ objects.flatMap (·.exportLines s.config.library) ++
    if castUnit = path then s.castLines casts else []
  exports : exportsOf u.body = enums.map (fun e => ("enum", e.name.localIdent)) ++
    objects.map (fun d => ("const", d.name.localIdent)) ++
      if castUnit = path then (s.castDeclarations casts).map fun t => ("type", t.name) else []
  enums : (blocksOf 0 "export enum " u.body).map (fun block => (block.1, enumEntries block.2)) =
    enums.map fun e => (e.name.localIdent, (memberNames e.values).zip e.values)
  objects : (blocksOf 0 "export const " u.body).map
      (fun block => (block.1, spreadShapes block.2, queriedShapes s.config.library block.2)) =
    objects.map fun d => (d.name.localIdent, [d.symbol], [d.symbol])
  types : declaredTypes (renderLines (typeLines u.body)) =
    some (if castUnit = path then s.castDeclarations casts else [])

/-- Which units a generation has and what they hold, by the enums and objects that are emitted. -/
structure LaysOut (s : Scope) (casts : CastMap) (g : Generation) (enums : List Enumeration)
    (objects : List ObjectDefinition) : Prop where
  enumTypes : List.Forall₂ (fun r e => r.qualifiedName = .ok e.name ∧
    e.values = (r.scalar?.map ScalarType.enumValues).getD []) s.enumTypes enums
  shapeTypes : List.Forall₂ (fun r d => r.qualifiedName = .ok d.name ∧ s.composite r = .ok d.composite)
    s.shapeTypes objects
  nodup_paths : g.tree.paths.Nodup
  mem_paths_iff : ∀ path, path ∈ g.tree.paths ↔
    path = baseUnit ∨ path = indexUnit ∨ path = castUnit ∨ ∃ m ∈ s.modules, path = moduleUnit m
  index : g.tree.get? indexUnit = some
    ⟨s.modules.map fun m => .of ("import * as _" ++ identOf m ++ " from \"./" ++ moduleSpecifier m ++ "\";"),
      [.text 0 "const modules = \x7b"] ++
        (s.modules.map fun m => .text 1 (identOf m ++ ": _" ++ identOf m ++ ",")) ++
        [.text 0 "\x7d as const;", .text 0 "export default modules;"], []⟩
  ofModules : ∀ path u, path ≠ baseUnit → path ≠ indexUnit → g.tree.get? path = some u →
    s.LaysOutUnit casts path (enums.filter fun e => moduleUnit e.name.moduleName = path)
      (objects.filter fun d => moduleUnit d.name.moduleName = path) u
  units : g.units = g.tree.paths.length
  enums : g.enums = g.tree.declaredEnums.length ∧
    g.tree.declaredEnums.Perm (enums.map fun e => e.name.localIdent)
  objects : ∃ base, g.tree.get? baseUnit = some base ∧ g.objects = (constsOf base.body).length

section Emitted

variable {s : Scope} {enums : List Enumeration} {objects : List ObjectDefinition}

theorem forall₂_enumerations (listed : s.enumerations = .ok enums) :
    List.Forall₂ (fun r e => r.qualifiedName = .ok e.name ∧
      e.values = (r.scalar?.map ScalarType.enumValues).getD []) s.enumTypes enums := by
  refine (mapM_eq_ok_iff.mp listed).imp fun r e described => ?_
  obtain ⟨q, named, rfl⟩ := map_eq_ok_iff.mp described
  exact ⟨named, rfl⟩

theorem modules_eq (listed : s.enumerations = .ok enums) (defined : s.objectDefinitions = .ok objects) :
    s.modules =
      (enums.map (fun e => e.name.moduleName) ++ objects.map (fun d => d.name.moduleName)).eraseDups := by
  rw [modules, List.filterMap_append, filterMap_of_forall₂ (forall₂_enumNames listed),
    filterMap_of_forall₂ (forall₂_shapeNames defined), List.map_append, List.map_map, List.map_map]
  rfl

/-- The modules of the index, though they are collected apart for enums and for objects. -/
theorem indexModules_eq (listed : s.enumerations = .ok enums) (defined : s.objectDefinitions = .ok objects) :
    addNew (enumModules enums) (objectModules objects) = s.modules := by
  rw [modules_eq listed defined, ← addNew_nil, addNew_append, enumModules, objectModules, addNew_addNew]
  rfl

/-- The units in the order of their creation. -/
theorem paths_emission (s : Scope) (casts : CastMap) (enums : List Enumeration) (objects : List ObjectDefinition) :
    (s.emission casts enums objects).tree.paths =
      (enums.map (fun e => moduleUnit e.name.moduleName) ++ [baseUnit] ++
        objects.map (fun d => moduleUnit d.name.moduleName) ++ [indexUnit] ++ [castUnit]).eraseDups := by
  have enumPaths (t : OutputTree) : (writeEnums enums t).paths =
      addNew t.paths (enums.map fun e => moduleUnit e.name.moduleName) :=
    OutputTree.paths_foldl_update (fun e : Enumeration => moduleUnit e.name.moduleName)
      (fun e u => u.addBody e.lines) enums t
  have objectPaths (t : OutputTree) : (objects.foldl (ObjectDefinition.writeTo s.config.library) t).paths =
      addNew t.paths (objects.map fun d => moduleUnit d.name.moduleName) :=
    OutputTree.paths_foldl_update (fun d : ObjectDefinition => moduleUnit d.name.moduleName)
      (fun d u => (ObjectDefinition.addImports s.config.library d.name.moduleName u).addBody
        (d.exportLines s.config.library)) objects t
  rw [emission, writeCastMaps, OutputTree.paths_update, writeIndex, OutputTree.paths_update, writeObjects,
    objectPaths, OutputTree.paths_update, enumPaths, ← addNew_nil, addNew_append, addNew_append, addNew_append,
    addNew_append]
  rfl

theorem mem_paths_emission_iff (casts : CastMap) (listed : s.enumerations = .ok enums)
    (defined : s.objectDefinitions = .ok objects) (path : String) :
    path ∈ (s.emission casts enums objects).tree.paths ↔
      path = baseUnit ∨ path = indexUnit ∨ path = castUnit ∨ ∃ m ∈ s.modules, path = moduleUnit m := by
  rw [paths_emission, modules_eq listed defined]
  simp only [List.mem_eraseDups, List.mem_append, List.mem_map, List.mem_singleton]
  constructor
  · rintro ((((⟨e, member, rfl⟩ | atBase) | ⟨d, member, rfl⟩) | atIndex) | atCasts)
    · exact Or.inr (Or.inr (Or.inr ⟨_, Or.inl ⟨e, member, rfl⟩, rfl⟩))
    · exact Or.inl atBase
    · exact Or.inr (Or.inr (Or.inr ⟨_, Or.inr ⟨d, member, rfl⟩, rfl⟩))
    · exact Or.inr (Or.inl atIndex)
    · exact Or.inr (Or.inr (Or.inl atCasts))
  · rintro (atBase | atIndex | atCasts | ⟨m, ⟨e, member, rfl⟩ | ⟨d, member, rfl⟩, rfl⟩)
    · exact Or.inl (Or.inl (Or.inl (Or.inr atBase)))
    · exact Or.inl (Or.inr atIndex)
    · exact Or.inr atCasts
    · exact Or.inl (Or.inl (Or.inl (Or.inl ⟨e, member, rfl⟩)))
    · exact Or.inl (Or.inl (Or.inr ⟨d, member, rfl⟩))

theorem declaredEnums_emission (s : Scope) (casts : CastMap) (enums : List Enumeration)
    (objects : List ObjectDefinition) :
    (s.emission casts enums objects).tree.declaredEnums.Perm (enums.map fun e => e.name.localIdent) := by
  have listed : (writeEnums enums {}).declaredEnums.Perm (enums.map fun e => e.name.localIdent) := by
    have adds (e : Enumeration) (u : OutputUnit) : declaredNames 0 "export enum " (u.addBody e.lines).body =
        declaredNames 0 "export enum " u.body ++ [e.name.localIdent] := by
      rw [OutputUnit.addBody, declaredNames_append, declaredEnums_eq e.lines, exportsOf_enumeration]
      rfl
    rw [← List.flatMap_singleton' (enums.map _), List.flatMap_map]
    exact OutputTree.declaredEnums_foldl_update adds enums {}
  have based : ((writeEnums enums {}).update baseUnit fun u =>
      { u.addHead (baseHead s.config.library (enumModules enums)) with
        body := baseBody s.config.library objects }).declaredEnums.Perm (writeEnums enums {}).declaredEnums := by
    have absent : (writeEnums enums {}).unitAt baseUnit = {} := by
      rw [OutputTree.unitAt, get?_writeEnums moduleUnit_ne_baseUnit, Option.getD_none]
    refine OutputTree.declaredEnums_update_of_eq ?_
    rw [absent]
    exact declaredEnums_baseBody _ objects
  have exported (t : OutputTree) :
      (objects.foldl (ObjectDefinition.writeTo s.config.library) t).declaredEnums.Perm t.declaredEnums := by
    have adds (d : ObjectDefinition) (u : OutputUnit) : declaredNames 0 "export enum "
        ((ObjectDefinition.addImports s.config.library d.name.moduleName u).addBody
          (d.exportLines s.config.library)).body = declaredNames 0 "export enum " u.body ++ [] := by
      rw [OutputUnit.addBody, body_addImports, declaredNames_append, declaredEnums_eq (d.exportLines _),
        exportsOf_definition]
      rfl
    have folded : (objects.foldl (ObjectDefinition.writeTo s.config.library) t).declaredEnums.Perm
        (t.declaredEnums ++ objects.flatMap fun _ => []) := OutputTree.declaredEnums_foldl_update adds objects t
    rwa [List.flatMap_eq_nil_iff.mpr fun _ _ => rfl, List.append_nil] at folded
  have silent {lines : List Line} (none : declaredNames 0 "export enum " lines = []) (u : OutputUnit) :
      declaredNames 0 "export enum " (u.addBody lines).body = declaredNames 0 "export enum " u.body := by
    rw [OutputUnit.addBody, declaredNames_append, none, List.append_nil]
  have maps := (declaredNames_castLines s casts).1
  rw [emission, writeCastMaps, writeIndex, writeObjects]
  exact (OutputTree.declaredEnums_update_of_eq (silent maps _)).trans <|
    (OutputTree.declaredEnums_update_of_eq (silent (declaredEnums_indexBody _) _)).trans <|
      (exported _).trans (based.trans listed)

theorem laysOutUnit_emission (s : Scope) (casts : CastMap) (enums : List Enumeration)
    (objects : List ObjectDefinition) {path : String} {u : OutputUnit} (notBase : path ≠ baseUnit)
    (notIndex : path ≠ indexUnit)
    (found : (s.emission casts enums objects).tree.get? path = some u) :
    s.LaysOutUnit casts path (enums.filter fun e => moduleUnit e.name.moduleName = path)
      (objects.filter fun d => moduleUnit d.name.moduleName = path) u := by
  have atPath : (s.emission casts enums objects).tree.bodyAt path = u.body := by
    rw [OutputTree.bodyAt, found, Option.getD_some]
  have body := s.bodyAt_emission casts enums objects notBase notIndex
  have enumBlocks := s.enumBlocks_bodyAt casts enums objects notBase notIndex
  have exportBlocks := s.exportBlocks_bodyAt casts enums objects notBase notIndex
  have imports := s.hasImports_emission casts enums objects notBase notIndex
  rw [atPath] at body enumBlocks exportBlocks
  rw [OutputTree.unitAt_of_get? found] at imports
  refine ⟨?_, body, ?_, ?_, ?_, ?_⟩
  · cases imports with
    | without apart head => exact Or.inl ⟨List.filter_eq_nil_iff.mpr fun d member => by simp [apart d member], head⟩
    | @ofObject d member here head =>
      refine Or.inr ⟨d, List.mem_filter.mpr ⟨member, decide_eq_true here⟩, head, ?_⟩
      rw [head]
      exact .cons (importSource?_importLine _) (.cons (importSource?_baseImport _) .nil)
  · rw [body, exportsOf_append, exportsOf_moduleBody]
    split
    · rw [exportsOf_castLines_eq]
    · rfl
  · rw [enumBlocks, List.map_map]
    exact List.map_congr_left fun e _ => congrArg (Prod.mk _) (enumEntries_enumeration e)
  · rw [exportBlocks, List.map_map]
    refine List.map_congr_left fun d _ => ?_
    simp only [Function.comp_apply, spreadShapes_definition, queriedShapes_definition]
  · have apart : ∀ e ∈ exportsOf (s.moduleBody enums objects path), e.1 ≠ "type" := by
      have kinds : "enum" ≠ "type" ∧ "const" ≠ "type" := by decide
      rw [exportsOf_moduleBody]
      exact List.forall_mem_append.mpr
        ⟨List.forall_mem_map.mpr fun _ _ => kinds.1, List.forall_mem_map.mpr fun _ _ => kinds.2⟩
    rw [body]
    exact declaredTypes_typeLines s casts apart path

/-- Units that are written by four passes, each of which may come back to the units of those before. -/
theorem laysOut_emission (casts : CastMap) (listed : s.enumerations = .ok enums)
    (defined : s.objectDefinitions = .ok objects) :
    s.LaysOut casts (s.emission casts enums objects) enums objects := by
  have declared := declaredEnums_emission s casts enums objects
  refine ⟨forall₂_enumerations listed, objectDefinitions_eq_ok_iff.mp defined, ?_,
    mem_paths_emission_iff casts listed defined, ?_,
    fun path u notBase notIndex found => s.laysOutUnit_emission casts enums objects notBase notIndex found,
    (List.length_map _).symm, ⟨?_, declared⟩, ⟨_, s.baseUnit_emission casts enums objects, ?_⟩⟩
  · rw [paths_emission, ← addNew_nil]
    exact nodup_addNew List.nodup_nil _
  · rw [indexUnit_emission, indexModules_eq listed defined]
    simp [indexHead, indexBody, nested, Line.of, Line.nest]
  · rw [declared.length_eq, List.length_map]
    rfl
  · rw [constsOf_baseBody, List.length_map]
    rfl

end Emitted
end Scope

namespace Generation

/-- What is emitted decides which units there are, in which order the index names them, what each
unit holds, and what is counted. -/
theorem lays_out {snapshot : Snapshot} {config : Config} {g : Generation} {s : Scope}
    (generated : snapshot.generate config = .ok g) (made : snapshot.scope config = .ok s) :
    ∃ enums objects, s.LaysOut (.ofImplicit snapshot.casts) g enums objects := by
  obtain ⟨s', made', emitted⟩ := Snapshot.generate_eq_ok_iff.mp generated
  cases made.symm.trans made'
  obtain ⟨enums, objects, listed, defined, rfl⟩ := Scope.generate_eq_ok_iff.mp emitted
  exact ⟨enums, objects, Scope.laysOut_emission _ listed defined⟩

end Generation

namespace SharedUnits

/-- Modules that share a unit, one of them with the cast maps. -/
def snapshot : Snapshot where
  types := [⟨⟨"shape"⟩, "a/b::Shape", .object ⟨false, [], [], [], []⟩⟩,
    ⟨⟨"color"⟩, "a::b::Color", .scalar ⟨false, [], ["red"], none⟩⟩,
    ⟨⟨"casts"⟩, "__typeutil__::Casts", .object ⟨false, [], [], [], []⟩⟩,
    ⟨⟨"level"⟩, "a/b::Level", .scalar ⟨false, [], ["low", "high"], none⟩⟩]
  casts := []

def config : Config where
  root := none

def scope : Scope :=
  ⟨⟨snapshot.types⟩, ⟨[⟨"shape"⟩, ⟨"color"⟩, ⟨"casts"⟩, ⟨"level"⟩]⟩, config, none⟩

theorem scope_eq : snapshot.scope config = .ok scope := by
  cbv

def enums : List Enumeration :=
  [⟨⟨"a::b", "Color"⟩, ["red"]⟩, ⟨⟨"a/b", "Level"⟩, ["low", "high"]⟩]

def objects : List ObjectDefinition :=
  [⟨⟨"a/b", "Shape"⟩, .ofMembers [] []⟩, ⟨⟨"__typeutil__", "Casts"⟩, .ofMembers [] []⟩]

def generation : Generation :=
  scope.emission (.ofImplicit snapshot.casts) enums objects

theorem generate_eq : snapshot.generate config = .ok generation := by
  have listed : scope.enumerations = .ok enums := by cbv
  have defined : scope.objectDefinitions = .ok objects := by cbv
  exact Snapshot.generate_eq_ok_iff.mpr ⟨scope, scope_eq, Scope.generate_eq_ok_iff.mpr ⟨_, _, listed, defined, rfl⟩⟩

/-- Three modules have two units, the first of which is begun by an enum and continued by an object. -/
theorem laid_out : snapshot.generate config = .ok generation ∧ snapshot.scope config = .ok scope ∧
    scope.modules = ["a::b", "a/b", "__typeutil__"] ∧
    generation.tree.paths = ["modules/a/b.ts", "__base__.ts", "modules/__typeutil__.ts", "index.ts"] ∧
    ∃ enums objects, scope.LaysOut (.ofImplicit snapshot.casts) generation enums objects ∧
      (∀ u, generation.tree.get? "modules/a/b.ts" = some u →
        exportsOf u.body = [("enum", "Color"), ("enum", "Level"), ("const", "Shape")]) ∧
      ∀ u, generation.tree.get? castUnit = some u →
        exportsOf u.body =
          [("const", "Casts"), ("type", "getSharedParentScalar"), ("type", "getSharedParentObject")] := by
  obtain ⟨enums, objects, layout⟩ := Generation.lays_out generate_eq scope_eq
  have enumNames : enums.map Enumeration.name = [⟨"a::b", "Color"⟩, ⟨"a/b", "Level"⟩] := by
    rw [← filterMap_of_forall₂ (List.forall₂_map_right_iff.mpr (layout.enumTypes.imp fun _ _ => And.left))]
    cbv
  have shapeNames : objects.map ObjectDefinition.name = [⟨"a/b", "Shape"⟩, ⟨"__typeutil__", "Casts"⟩] := by
    rw [← filterMap_of_forall₂ (List.forall₂_map_right_iff.mpr (layout.shapeTypes.imp fun _ _ => And.left))]
    cbv
  have maps : (scope.castDeclarations (.ofImplicit snapshot.casts)).map (fun t => ("type", t.name)) =
      [("type", "getSharedParentScalar"), ("type", "getSharedParentObject")] := by cbv
  -- the exports of a unit follow from the names of what is emitted
  have exports {path : String} {u : OutputUnit} (notBase : path ≠ baseUnit) (notIndex : path ≠ indexUnit)
      (found : generation.tree.get? path = some u) :
      exportsOf u.body =
        ((enums.map Enumeration.name).filter fun q => moduleUnit q.moduleName = path).map
            (("enum", ·.localIdent)) ++
          ((objects.map ObjectDefinition.name).filter fun q => moduleUnit q.moduleName = path).map
            (("const", ·.localIdent)) ++
              if castUnit = path then [("type", "getSharedParentScalar"), ("type", "getSharedParentObject")]
              else [] := by
    rw [(layout.ofModules path u notBase notIndex found).exports, maps, List.filter_map, List.filter_map,
      List.map_map, List.map_map]
    rfl
  refine ⟨generate_eq, scope_eq, by cbv, by cbv, enums, objects, layout, fun u found => ?_, fun u found => ?_⟩
  · rw [exports (by decide) (by decide) found, enumNames, shapeNames]
    decide
  · rw [exports (by decide) (by decide) found, enumNames, shapeNames]
    decide

end SharedUnits
end QueryShapes
