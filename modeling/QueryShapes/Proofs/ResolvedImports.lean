import QueryShapes.Proofs.DeclaredNames
import QueryShapes.Proofs.ImportPaths

namespace QueryShapes

namespace OutputTree

theorem isSome_get?_update {t : OutputTree} {path other : String} {f : OutputUnit → OutputUnit} :
    ((t.update path f).get? other).isSome ↔ path = other ∨ (t.get? other).isSome := by
  rw [get?_update, eq_comm (a := path)]
  by_cases same : other = path
  · simp [same]
  · simp [same]

theorem isSome_get?_foldl_update {α : Type} {path : α → String} {f : α → OutputUnit → OutputUnit} {items : List α}
    {t : OutputTree} {other : String} :
    ((items.foldl (fun t a => t.update (path a) (f a)) t).get? other).isSome ↔
      (∃ a ∈ items, path a = other) ∨ (t.get? other).isSome := by
  induction items generalizing t with
  | nil => simp
  | cons a items ih =>
    rw [List.foldl_cons, ih, isSome_get?_update, List.exists_mem_cons_iff, or_assoc, or_left_comm]

/-- The unit at a path, which is empty where there is none. -/
def unitAt (t : OutputTree) (path : String) : OutputUnit :=
  (t.get? path).getD {}

theorem unitAt_of_get? {t : OutputTree} {path : String} {u : OutputUnit} (found : t.get? path = some u) :
    t.unitAt path = u := by
  rw [unitAt, found, Option.getD_some]

theorem unitAt_update (t : OutputTree) (path other : String) (f : OutputUnit → OutputUnit) :
    (t.update path f).unitAt other = if other = path then f (t.unitAt path) else t.unitAt other := by
  rw [unitAt, get?_update]
  split <;> rfl

end OutputTree

namespace OutputUnit

theorem isMarked_mark (u : OutputUnit) (flag : String) : (u.mark flag).isMarked flag = true := by
  unfold mark
  split
  · assumption
  · simp [isMarked]

theorem head_mark (u : OutputUnit) (flag : String) : (u.mark flag).head = u.head := by
  unfold mark
  split <;> rfl

end OutputUnit

/-- The import of the base unit in the unit of a module. -/
def baseImport (m : String) : Line :=
  .of ("import base from \"" ++ pathToRoot m ++ "__base__\";")

/-- A unit has imports as soon as an object is written to it, those that the first object brings. -/
inductive HasImports (lib : ClientLibrary) (path : String) (objects : List ObjectDefinition) (u : OutputUnit) : Prop
  | without : (∀ d ∈ objects, moduleUnit d.name.moduleName ≠ path) → u.head = [] →
      u.isMarked ObjectDefinition.importFlag = false → HasImports lib path objects u
  | ofObject {d} : d ∈ objects → moduleUnit d.name.moduleName = path →
      u.head = [.of lib.importLine, baseImport d.name.moduleName] → u.isMarked ObjectDefinition.importFlag = true →
      HasImports lib path objects u

namespace HasImports

variable {lib : ClientLibrary} {path : String} {objects : List ObjectDefinition}

theorem addBody {u : OutputUnit} (imports : HasImports lib path objects u) (lines : List Line) :
    HasImports lib path objects (u.addBody lines) := by
  cases imports with
  | without apart head unmarked => exact .without apart head unmarked
  | ofObject member here head marked => exact .ofObject member here head marked

theorem updateBody {t : OutputTree} (imports : HasImports lib path objects (t.unitAt path)) (other : String)
    (lines : List Line) : HasImports lib path objects ((t.update other (·.addBody lines)).unitAt path) := by
  rw [OutputTree.unitAt_update]
  split
  · rename_i here
    rw [← here]
    exact imports.addBody lines
  · exact imports

/-- An object adds imports to its unit unless that has them. -/
theorem addImports {u : OutputUnit} (imports : HasImports lib path objects u) {d : ObjectDefinition}
    (here : moduleUnit d.name.moduleName = path) :
    HasImports lib path (objects ++ [d]) (ObjectDefinition.addImports lib d.name.moduleName u) := by
  unfold ObjectDefinition.addImports
  cases imports with
  | without _ head unmarked =>
    rw [unmarked, if_neg Bool.false_ne_true]
    refine .ofObject (List.mem_append_right _ List.mem_cons_self) here ?_ (u.isMarked_mark _)
    rw [OutputUnit.addHead, OutputUnit.head_mark, head]
    rfl
  | ofObject member there head marked =>
    rw [if_pos marked]
    exact .ofObject (List.mem_append_left _ member) there head marked

theorem elsewhere {u : OutputUnit} (imports : HasImports lib path objects u) {d : ObjectDefinition}
    (apart : moduleUnit d.name.moduleName ≠ path) : HasImports lib path (objects ++ [d]) u := by
  cases imports with
  | without others head unmarked =>
    refine .without (fun d' member => ?_) head unmarked
    rcases List.mem_append.mp member with before | last
    · exact others d' before
    · cases List.mem_singleton.mp last
      exact apart
  | ofObject member here head marked => exact .ofObject (List.mem_append_left _ member) here head marked

theorem writeTo {t : OutputTree} (imports : HasImports lib path objects (t.unitAt path)) (d : ObjectDefinition) :
    HasImports lib path (objects ++ [d]) ((d.writeTo lib t).unitAt path) := by
  rw [ObjectDefinition.writeTo, OutputTree.unitAt_update]
  split
  · rename_i here
    rw [← here]
    exact (imports.addImports here.symm).addBody _
  · rename_i apart
    exact imports.elsewhere (Ne.symm apart)

theorem foldl_writeTo {t : OutputTree} (imports : HasImports lib path objects (t.unitAt path))
    (later : List ObjectDefinition) :
    HasImports lib path (objects ++ later) ((later.foldl (ObjectDefinition.writeTo lib) t).unitAt path) := by
  induction later generalizing t objects with
  | nil => simpa using imports
  | cons d later ih => simpa using ih (imports.writeTo d)

end HasImports

/-- Enums come without imports. -/
theorem HasImports.writeEnums (lib : ClientLibrary) (path : String) (enums : List Enumeration) :
    HasImports lib path [] ((writeEnums enums {}).unitAt path) := by
  have start : HasImports lib path [] (({} : OutputTree).unitAt path) := .without (List.forall_mem_nil _) rfl rfl
  unfold QueryShapes.writeEnums
  generalize ({} : OutputTree) = t at start
  induction enums generalizing t with
  | nil => exact start
  | cons e enums ih => exact ih _ (start.updateBody _ e.lines)

section Heads

variable (lib : ClientLibrary) (modules : List String)

/-- Lines that each import the unit of a module. -/
theorem forall₂_moduleImports {unit : String} (atRoot : (unit.toList.splitOn '/').dropLast = [])
    {content lead : String → String}
    (spelled : ∀ m, content m = lead m ++ "\"" ++ ("./" ++ moduleSpecifier m) ++ "\";")
    (bare : ∀ m, '"' ∉ (lead m).toList) :
    List.Forall₂ (fun m (line : Line) => line.importTarget? unit = some (moduleUnit m) ↔ IsImportable m) modules
      (modules.map fun m => .of (content m)) := by
  rw [List.forall₂_map_right_iff, List.forall₂_same]
  intro m _
  rw [spelled]
  exact Line.importTarget?_module atRoot (bare m) m

theorem quote_not_mem_of_isWord {word : String} (isWord : IsWord word) : '"' ∉ word.toList := by
  intro member
  exact absurd (isWord.ident _ member) (by decide)

theorem importsUnit_indexHead : (indexHead modules).filter Line.importsUnit = indexHead modules := by
  rw [List.filter_eq_self]
  intro line member
  obtain ⟨m, _, rfl⟩ := List.mem_map.mp member
  simp [Line.of, Line.importsUnit, List.isPrefixOf]

theorem forall₂_indexHead :
    List.Forall₂ (fun m line => line.importTarget? indexUnit = some (moduleUnit m) ↔ IsImportable m) modules
      ((indexHead modules).filter Line.importsUnit) := by
  have spelled (m : String) : "import * as _" ++ identOf m ++ " from \"./" ++ moduleSpecifier m ++ "\";" =
      "import * as _" ++ identOf m ++ " from " ++ "\"" ++ ("./" ++ moduleSpecifier m) ++ "\";" := by
    simp [← String.toList_inj]
  have bare (m : String) : '"' ∉ ("import * as _" ++ identOf m ++ " from ").toList := by
    simp [quote_not_mem_of_isWord (isWord_identOf m)]
  rw [importsUnit_indexHead]
  exact forall₂_moduleImports modules (by decide) spelled bare

theorem importsUnit_importLine : (Line.of lib.importLine).importsUnit = false := by
  delta ClientLibrary.importLine
  simp [Line.of, Line.importsUnit]

theorem importsUnit_baseHead : (baseHead lib modules).filter Line.importsUnit = modules.map fun m =>
    .of ("import type * as " ++ identOf m ++ "Types from \"./" ++ moduleSpecifier m ++ "\";") := by
  have blank : Line.blank.importsUnit = false := rfl
  rw [baseHead, List.filter_append, List.filter_cons_of_neg (by simp [importsUnit_importLine]),
    List.filter_cons_of_neg (by simp [blank]), List.filter_nil, List.nil_append, List.filter_eq_self]
  intro line member
  obtain ⟨m, _, rfl⟩ := List.mem_map.mp member
  simp [Line.of, Line.importsUnit, List.isPrefixOf]

theorem forall₂_baseHead :
    List.Forall₂ (fun m line => line.importTarget? baseUnit = some (moduleUnit m) ↔ IsImportable m) modules
      ((baseHead lib modules).filter Line.importsUnit) := by
  have spelled (m : String) : "import type * as " ++ identOf m ++ "Types from \"./" ++ moduleSpecifier m ++ "\";" =
      "import type * as " ++ identOf m ++ "Types from " ++ "\"" ++ ("./" ++ moduleSpecifier m) ++ "\";" := by
    simp [← String.toList_inj]
  have bare (m : String) : '"' ∉ ("import type * as " ++ identOf m ++ "Types from ").toList := by
    simp [quote_not_mem_of_isWord (isWord_identOf m)]
  rw [importsUnit_baseHead]
  exact forall₂_moduleImports modules (by decide) spelled bare

end Heads

section Bodies

theorem importsUnit_nested (lines : List Line) : (nested lines).filter Line.importsUnit = [] := by
  rw [List.filter_eq_nil_iff]
  intro line member
  obtain ⟨inner, _, rfl⟩ := List.mem_map.mp member
  cases inner <;> exact Bool.false_ne_true

theorem importsUnit_indexBody (modules : List String) : (indexBody modules).filter Line.importsUnit = [] := by
  simp [indexBody, importsUnit_nested, Line.of, Line.importsUnit]

theorem importsUnit_baseBody (lib : ClientLibrary) (objects : List ObjectDefinition) :
    (baseBody lib objects).filter Line.importsUnit = [] := by
  simp [baseBody, importsUnit_nested, Line.of, Line.importsUnit]

theorem importsUnit_enumeration (e : Enumeration) : e.lines.filter Line.importsUnit = [] := by
  simp [Enumeration.lines, importsUnit_nested, Line.of, Line.importsUnit]

theorem importsUnit_definition (lib : ClientLibrary) (d : ObjectDefinition) :
    (d.exportLines lib).filter Line.importsUnit = [] := by
  simp [ObjectDefinition.exportLines, importsUnit_nested, Line.of, Line.importsUnit]

theorem importsUnit_matrix (m : CastMatrix) (mapName : String) :
    (m.lines mapName).filter Line.importsUnit = [] := by
  rw [CastMatrix.lines, CastMatrix.headLines]
  split <;> simp [importsUnit_nested, Line.of, Line.importsUnit]

/-- Imports stand in the heads of units. -/
theorem Scope.importsUnit_bodyAt (s : Scope) (casts : CastMap) (enums : List Enumeration)
    (objects : List ObjectDefinition) (path : String) :
    ((s.emission casts enums objects).tree.bodyAt path).filter Line.importsUnit = [] := by
  by_cases atBase : path = baseUnit
  · rw [atBase, OutputTree.bodyAt, baseUnit_emission]
    exact importsUnit_baseBody _ _
  by_cases atIndex : path = indexUnit
  · rw [atIndex, OutputTree.bodyAt, indexUnit_emission]
    exact importsUnit_indexBody _
  have blank : Line.blank.importsUnit = false := rfl
  have maps : (if castUnit = path then s.castLines casts else []).filter Line.importsUnit = [] := by
    split
    · simp [castLines, importsUnit_matrix, blank]
    · rfl
  rw [bodyAt_emission s casts enums objects atBase atIndex, List.filter_append, maps, moduleBody]
  simp [List.filter_flatMap, importsUnit_enumeration, importsUnit_definition]

end Bodies

namespace OutputUnit

/-- The unit imports the units of the given modules, one in each line. A line leads where it should
just when its module is importable. -/
def ImportsModules (path : String) (u : OutputUnit) (modules : Set String) : Prop :=
  ∃ listed : List String, (∀ m, m ∈ listed ↔ m ∈ modules) ∧
    List.Forall₂ (fun m line => line.importTarget? path = some (moduleUnit m) ↔ IsImportable m) listed
      (u.head.filter Line.importsUnit)

/-- The unit imports only the base unit, as the unit of one of the given modules. The path is
always read, and leads where it should just when the name of the module has no slash. -/
def ImportsBase (path : String) (u : OutputUnit) (modules : Set String) : Prop :=
  ∃ m ∈ modules, moduleUnit m = path ∧ ∃ line, u.head.filter Line.importsUnit = [line] ∧
    (∃ source, line.source? = some source) ∧
      ((∀ part ∈ (moduleSpecifier m).toList.splitOn '/', IsFileName part) →
        (line.importTarget? path = some baseUnit ↔ '/' ∉ m.toList))

theorem importsBase_of_ofObject {lib : ClientLibrary} {u : OutputUnit} {m : String} {modules : Set String}
    (member : m ∈ modules) (head : u.head = [.of lib.importLine, baseImport m]) :
    u.ImportsBase (moduleUnit m) modules := by
  have spelled : baseImport m = .of ("import base from " ++ "\"" ++ (pathToRoot m ++ "__base__") ++ "\";") := by
    rw [baseImport, Line.of, Line.of, Line.text.injEq, and_iff_right rfl]
    simp [← String.toList_inj]
  have imports : (baseImport m).importsUnit = true := by
    simp [baseImport, Line.of, Line.importsUnit, List.isPrefixOf]
  refine ⟨m, member, rfl, baseImport m, ?_, ?_⟩
  · rw [head, List.filter_cons_of_neg (by simp [importsUnit_importLine]), List.filter_cons_of_pos imports,
      List.filter_nil]
  · rw [spelled]
    exact Line.importTarget?_base (by decide) m

end OutputUnit

/-- Every import of a unit leads to a unit. -/
def Generation.ImportsResolve (g : Generation) : Prop :=
  ∀ path u, g.tree.get? path = some u → ∀ line ∈ (u.head ++ u.body).filter Line.importsUnit,
    ∃ target, line.importTarget? path = some target ∧ (g.tree.get? target).isSome

namespace Scope

/-- What the units of a generation import, and where that leads. -/
structure ImportsUnits (s : Scope) (g : Generation) (base index : OutputUnit) : Prop where
  foundBase : g.tree.get? baseUnit = some base
  foundIndex : g.tree.get? indexUnit = some index
  bodies : ∀ path u, g.tree.get? path = some u → u.body.filter Line.importsUnit = []
  emitted : ∀ q ∈ s.enumNames ∪ s.shapeNames, (g.tree.get? (moduleUnit q.moduleName)).isSome
  ofBase : base.ImportsModules baseUnit (QualifiedName.moduleName '' s.enumNames)
  ofIndex : index.ImportsModules indexUnit (QualifiedName.moduleName '' (s.enumNames ∪ s.shapeNames))
  ofModules : ∀ path u, path ≠ baseUnit → path ≠ indexUnit → g.tree.get? path = some u →
    ((∀ q ∈ s.shapeNames, moduleUnit q.moduleName ≠ path) ∧ u.head.filter Line.importsUnit = []) ∨
      u.ImportsBase path (QualifiedName.moduleName '' s.shapeNames)

section Emitted

variable {s : Scope} {enums : List Enumeration} {objects : List ObjectDefinition}

/-- The paths of the units that are emitted. -/
theorem isSome_get?_emission {casts : CastMap} {path : String} :
    ((s.emission casts enums objects).tree.get? path).isSome ↔
      castUnit = path ∨ indexUnit = path ∨ (∃ d ∈ objects, moduleUnit d.name.moduleName = path) ∨ baseUnit = path ∨
        ∃ e ∈ enums, moduleUnit e.name.moduleName = path := by
  have none : (({} : OutputTree).get? path).isSome ↔ False := by
    rw [OutputTree.get?, List.lookup_nil]
    exact iff_of_false Bool.false_ne_true not_false
  rw [emission, writeCastMaps, OutputTree.isSome_get?_update, writeIndex, OutputTree.isSome_get?_update,
    writeObjects]
  unfold ObjectDefinition.writeTo
  rw [OutputTree.isSome_get?_foldl_update, OutputTree.isSome_get?_update, writeEnums]
  unfold Enumeration.writeTo
  rw [OutputTree.isSome_get?_foldl_update, none, or_false]

theorem hasImports_emission (s : Scope) (casts : CastMap) (enums : List Enumeration)
    (objects : List ObjectDefinition) {path : String} (notBase : path ≠ baseUnit)
    (notIndex : path ≠ indexUnit) :
    HasImports s.config.library path objects ((s.emission casts enums objects).tree.unitAt path) := by
  have written : HasImports s.config.library path ([] ++ objects)
      ((writeObjects s.config.library (enumModules enums) objects (writeEnums enums {})).unitAt path) := by
    refine HasImports.foldl_writeTo ?_ objects
    rw [OutputTree.unitAt_update, if_neg notBase]
    exact .writeEnums _ path enums
  rw [emission, writeCastMaps, writeIndex]
  refine HasImports.updateBody ?_ castUnit _
  rw [OutputTree.unitAt_update, if_neg notIndex]
  exact written

theorem importsUnits_emission (casts : CastMap) (listed : s.enumerations = .ok enums)
    (defined : s.objectDefinitions = .ok objects) :
    ∃ base index, s.ImportsUnits (s.emission casts enums objects) base index := by
  have shapes (m : String) : m ∈ objects.map (·.name.moduleName) ↔ m ∈ QualifiedName.moduleName '' s.shapeNames :=
    mem_modules_iff (forall₂_shapeNames defined)
  have enumerated (m : String) : m ∈ enums.map (·.name.moduleName) ↔ m ∈ QualifiedName.moduleName '' s.enumNames :=
    mem_modules_iff (forall₂_enumNames listed)
  refine ⟨_, _, s.baseUnit_emission casts enums objects, s.indexUnit_emission casts enums objects,
    fun path u found => ?_, fun q emitted => ?_,
    ⟨_, fun _ => mem_enumModules_iff listed, forall₂_baseHead _ _⟩,
    ⟨_, fun _ => mem_indexModules_iff listed defined, forall₂_indexHead _⟩,
    fun path u notBase notIndex found => ?_⟩
  · have none := s.importsUnit_bodyAt casts enums objects path
    rw [OutputTree.bodyAt, found] at none
    exact none
  · rw [isSome_get?_emission]
    rcases emitted with isEnum | isShape
    · obtain ⟨e, member, same⟩ := List.mem_map.mp ((enumerated _).mpr ⟨q, isEnum, rfl⟩)
      exact Or.inr (Or.inr (Or.inr (Or.inr ⟨e, member, congrArg moduleUnit same⟩)))
    · obtain ⟨d, member, same⟩ := List.mem_map.mp ((shapes _).mpr ⟨q, isShape, rfl⟩)
      exact Or.inr (Or.inr (Or.inl ⟨d, member, congrArg moduleUnit same⟩))
  · have imports := s.hasImports_emission casts enums objects notBase notIndex
    rw [OutputTree.unitAt_of_get? found] at imports
    cases imports with
    | without apart head =>
      refine Or.inl ⟨fun q isShape => ?_, by rw [head, List.filter_nil]⟩
      obtain ⟨d, member, same⟩ := List.mem_map.mp ((shapes _).mpr ⟨q, isShape, rfl⟩)
      rw [← same]
      exact apart d member
    | ofObject member here head =>
      rw [← here]
      exact Or.inr (OutputUnit.importsBase_of_ofObject ((shapes _).mp (List.mem_map_of_mem member)) head)

end Emitted

/-- All imports lead to units, if all modules are importable and no module of an object has a slash. -/
theorem ImportsUnits.resolve {s : Scope} {g : Generation} {base index : OutputUnit}
    (imports : s.ImportsUnits g base index)
    (importable : ∀ q ∈ s.enumNames ∪ s.shapeNames, IsImportable q.moduleName)
    (flat : ∀ q ∈ s.shapeNames, '/' ∉ q.moduleName.toList) : g.ImportsResolve := by
  have ofModules {path : String} {u : OutputUnit} {emitted : Set QualifiedName}
      (within : emitted ⊆ s.enumNames ∪ s.shapeNames)
      (leads : u.ImportsModules path (QualifiedName.moduleName '' emitted)) {line : Line}
      (member : line ∈ u.head.filter Line.importsUnit) :
      ∃ target, line.importTarget? path = some target ∧ (g.tree.get? target).isSome := by
    obtain ⟨listed, modules, related⟩ := leads
    obtain ⟨m, isListed, target⟩ := exists_of_forall₂_right related member
    obtain ⟨q, isEmitted, rfl⟩ := (modules m).mp isListed
    exact ⟨_, target.mpr (importable q (within isEmitted)), imports.emitted q (within isEmitted)⟩
  intro path u found line member
  rw [List.filter_append, imports.bodies path u found, List.append_nil] at member
  by_cases atBase : path = baseUnit
  · subst atBase
    cases imports.foundBase.symm.trans found
    exact ofModules Set.subset_union_left imports.ofBase member
  by_cases atIndex : path = indexUnit
  · subst atIndex
    cases imports.foundIndex.symm.trans found
    exact ofModules subset_rfl imports.ofIndex member
  rcases imports.ofModules path u atBase atIndex found with
    ⟨_, none⟩ | ⟨_, ⟨q, isShape, rfl⟩, _, only, single, _, leads⟩
  · rw [none] at member
    cases member
  · rw [single] at member
    cases List.mem_singleton.mp member
    refine ⟨_, (leads (importable q (Or.inr isShape)).names).mpr (flat q isShape), ?_⟩
    rw [imports.foundBase]
    rfl

end Scope

namespace Generation

/-- Every import leads to the unit that it is for, unless the name of a module breaks the literal or
the path into which it is written, or has a slash, which the way from its unit to the root does not count. -/
theorem imports_lead {snapshot : Snapshot} {config : Config} {g : Generation} {s : Scope}
    (generated : snapshot.generate config = .ok g) (made : snapshot.scope config = .ok s) :
    ∃ base index, s.ImportsUnits g base index ∧
      ((∀ q ∈ s.enumNames ∪ s.shapeNames, IsImportable q.moduleName) →
        (∀ q ∈ s.shapeNames, '/' ∉ q.moduleName.toList) → g.ImportsResolve) := by
  obtain ⟨s', made', emitted⟩ := Snapshot.generate_eq_ok_iff.mp generated
  cases made.symm.trans made'
  obtain ⟨enums, objects, listed, defined, rfl⟩ := Scope.generate_eq_ok_iff.mp emitted
  obtain ⟨base, index, imports⟩ := Scope.importsUnits_emission (.ofImplicit snapshot.casts) listed defined
  exact ⟨base, index, imports, imports.resolve⟩

end Generation

namespace StrayImports

/-- An object in a module whose name has a slash, and an enum in one whose name has a quote. -/
def snapshot : Snapshot where
  types := [⟨⟨"slashed"⟩, "a/b::C", .object ⟨false, [], [], [], []⟩⟩,
    ⟨⟨"marked"⟩, "q\"r::E", .scalar ⟨false, [], ["x"], none⟩⟩]
  casts := []

def config : Config where
  root := none

def scope : Scope :=
  ⟨⟨snapshot.types⟩, ⟨[⟨"slashed"⟩, ⟨"marked"⟩]⟩, config, none⟩

theorem scope_eq : snapshot.scope config = .ok scope := by
  cbv

def slashed : QualifiedName := ⟨"a/b", "C"⟩

def marked : QualifiedName := ⟨"q\"r", "E"⟩

def enums : List Enumeration :=
  [⟨marked, ["x"]⟩]

def objects : List ObjectDefinition :=
  [⟨slashed, .ofMembers [] []⟩]

theorem listed : scope.enumerations = .ok enums := by
  cbv

theorem defined : scope.objectDefinitions = .ok objects := by
  cbv

def generation : Generation :=
  scope.emission (.ofImplicit snapshot.casts) enums objects

theorem generate_eq : snapshot.generate config = .ok generation :=
  Snapshot.generate_eq_ok_iff.mpr ⟨scope, scope_eq, Scope.generate_eq_ok_iff.mpr ⟨_, _, listed, defined, rfl⟩⟩

theorem imports_of_slashed :
    (generation.tree.unitAt (moduleUnit "a/b")).head.filter Line.importsUnit = [baseImport "a/b"] := by
  cbv

/-- The way to the root stops one directory short of it. -/
theorem target_of_slashed : (baseImport "a/b").importTarget? (moduleUnit "a/b") = some "modules/__base__.ts" := by
  cbv

theorem no_target : (generation.tree.get? "modules/__base__.ts").isSome = false := by
  cbv

/-- The base unit and the index each have an import that leads nowhere, and so has the unit of the object. -/
theorem lead_astray :
    snapshot.generate config = .ok generation ∧ snapshot.scope config = .ok scope ∧ ¬generation.ImportsResolve ∧
      (∃ base line, generation.tree.get? baseUnit = some base ∧ line ∈ base.head.filter Line.importsUnit ∧
        line.importTarget? baseUnit ≠ some (moduleUnit "q\"r")) ∧
      (∃ index line, generation.tree.get? indexUnit = some index ∧ line ∈ index.head.filter Line.importsUnit ∧
        line.importTarget? indexUnit ≠ some (moduleUnit "q\"r")) ∧
      ∃ u line, generation.tree.get? (moduleUnit "a/b") = some u ∧ u.head.filter Line.importsUnit = [line] ∧
        (∃ source, line.source? = some source) ∧ line.importTarget? (moduleUnit "a/b") ≠ some baseUnit := by
  obtain ⟨base, index, imports, _⟩ := Generation.imports_lead generate_eq scope_eq
  have isEnum : marked ∈ scope.enumNames := (mem_names_iff (Scope.forall₂_enumNames listed)).mp (by simp [enums])
  have shapes (q : QualifiedName) : q ∈ scope.shapeNames ↔ q = slashed := by
    rw [Scope.shapeNames, ← mem_names_iff (Scope.forall₂_shapeNames defined)]
    simp [objects]
  obtain ⟨u, found⟩ : ∃ u, generation.tree.get? (moduleUnit "a/b") = some u :=
    Option.isSome_iff_exists.mp (imports.emitted slashed (Or.inr ((shapes _).mpr rfl)))
  have notImportable : ¬IsImportable marked.moduleName := fun importable => absurd importable.plain (by decide)
  have astray {path : String} {unit : OutputUnit} {emitted : Set QualifiedName} (isEmitted : marked ∈ emitted)
      (leads : unit.ImportsModules path (QualifiedName.moduleName '' emitted)) :
      ∃ line ∈ unit.head.filter Line.importsUnit, line.importTarget? path ≠ some (moduleUnit "q\"r") := by
    obtain ⟨all, modules, related⟩ := leads
    obtain ⟨line, member, target⟩ := exists_of_forall₂_left related ((modules _).mpr ⟨marked, isEmitted, rfl⟩)
    exact ⟨line, member, fun leads => notImportable (target.mp leads)⟩
  refine ⟨generate_eq, scope_eq, fun resolve => ?_, ?_, ?_, ?_⟩
  · have member : baseImport "a/b" ∈ (u.head ++ u.body).filter Line.importsUnit := by
      rw [List.filter_append, ← OutputTree.unitAt_of_get? found]
      exact List.mem_append_left _ (imports_of_slashed ▸ List.mem_cons_self)
    obtain ⟨target, leads, isUnit⟩ := resolve _ u found _ member
    cases target_of_slashed.symm.trans leads
    rw [no_target] at isUnit
    cases isUnit
  · obtain ⟨line, member, apart⟩ := astray isEnum imports.ofBase
    exact ⟨base, line, imports.foundBase, member, apart⟩
  · obtain ⟨line, member, apart⟩ := astray (Or.inl isEnum) imports.ofIndex
    exact ⟨index, line, imports.foundIndex, member, apart⟩
  · rcases imports.ofModules _ u (moduleUnit_ne_baseUnit _).symm (indexUnit_ne_moduleUnit _).symm found with
      ⟨apart, _⟩ | ⟨_, ⟨q, isShape, rfl⟩, _, line, single, read, leads⟩
    · exact absurd rfl (apart slashed ((shapes _).mpr rfl))
    · cases (shapes q).mp isShape
      refine ⟨u, line, found, single, read, fun target => ?_⟩
      exact absurd ((leads (by decide)).mp target) (by decide)

end StrayImports

end QueryShapes
