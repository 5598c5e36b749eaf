import QueryShapes.Proofs.DiskFiles
import QueryShapes.Proofs.UnitLayout

namespace QueryShapes

theorem pathSegments_eq_splitOn (path : List Char) : pathSegments path = path.splitOn '/' := by
  induction path with
  | nil => rfl
  | cons c path ih =>
    rw [pathSegments, splitOn_cons, ih]
    split
    · rfl
    · split
      · rename_i parts
        rw [parts, List.modifyHead_cons]
      · rename_i none
        exact absurd none (List.splitOn_ne_nil '/' path)

theorem splitOn_intercalate {parts : List (List Char)} (nonempty : parts ≠ []) :
    (['/'].intercalate parts).splitOn '/' = parts.flatMap (·.splitOn '/') := by
  induction parts with
  | nil => exact absurd rfl nonempty
  | cons part parts ih =>
    cases parts with
    | nil => simp
    | cons next parts =>
      have joined : part ++ ['/'] ++ ['/'].intercalate (next :: parts) =
          part ++ '/' :: ['/'].intercalate (next :: parts) := by simp
      rw [List.intercalate_cons_cons, joined, ← pathSegments_eq_splitOn, pathSegments_append,
        pathSegments_eq_splitOn, pathSegments_eq_splitOn, ih (by simp)]
      rfl

/-- What is added to a path without slashes is added to its last part. -/
theorem exists_splitOn_append (path : List Char) {extension : List Char} (single : '/' ∉ extension) :
    ∃ dir file, path.splitOn '/' = dir ++ [file] ∧
      (path ++ extension).splitOn '/' = dir ++ [file ++ extension] := by
  induction path with
  | nil => exact ⟨[], [], rfl, List.splitOn_eq_singleton single⟩
  | cons c path ih =>
    obtain ⟨dir, file, parts, extended⟩ := ih
    rw [List.cons_append, splitOn_cons, splitOn_cons, parts, extended]
    split
    · exact ⟨[] :: dir, file, rfl, rfl⟩
    · rcases dir with _ | ⟨first, dir⟩
      · exact ⟨[], c :: file, rfl, rfl⟩
      · exact ⟨(c :: first) :: dir, file, rfl, rfl⟩

/-- The parts of a module's name between its separators and its slashes, which both become slashes of the
path of its unit. -/
def moduleParts (m : String) : List (List Char) :=
  (moduleSegments m.toList).flatMap (·.splitOn '/')

theorem splitOn_moduleSegments (m : String) :
    (['/'].intercalate (moduleSegments m.toList)).splitOn '/' = moduleParts m :=
  splitOn_intercalate (moduleSegments_ne_nil _)

theorem toList_moduleUnit (m : String) :
    (moduleUnit m).toList =
      "modules".toList ++ '/' :: (['/'].intercalate (moduleSegments m.toList) ++ ".ts".toList) := by
  rw [moduleUnit, String.toList_append, toList_moduleSpecifier, List.append_assoc]
  rfl

/-- Every part of the path names what lies one level deeper. -/
def IsSafePath (path : String) : Prop :=
  ∀ part ∈ path.toList.splitOn '/', part ≠ [] ∧ IsFileName part

/-- Every part of the module's name but the last can name a directory. -/
def IsSafeModule (m : String) : Prop :=
  ∀ part ∈ (moduleParts m).dropLast, part ≠ [] ∧ IsFileName part

instance (path : String) : Decidable (IsSafePath path) :=
  inferInstanceAs (Decidable (∀ part ∈ _, _ ∧ _))

instance (m : String) : Decidable (IsSafeModule m) :=
  inferInstanceAs (Decidable (∀ part ∈ _, _ ∧ _))

theorem moduleUnit_eq_iff {m m' : String} : moduleUnit m = moduleUnit m' ↔ moduleParts m = moduleParts m' := by
  rw [← String.toList_inj, toList_moduleUnit, toList_moduleUnit, List.append_cancel_left_eq, List.cons.injEq,
    and_iff_right rfl, List.append_cancel_right_eq, ← splitOn_moduleSegments, ← splitOn_moduleSegments]
  constructor
  · exact congrArg _
  · intro same
    have joined := congrArg ['/'].intercalate same
    rwa [List.intercalate_splitOn, List.intercalate_splitOn] at joined

theorem moduleUnit_eq_castUnit_iff {m : String} : moduleUnit m = castUnit ↔ m = "__typeutil__" := by
  constructor
  · intro same
    have joined : ['/'].intercalate (moduleSegments m.toList) = "__typeutil__".toList := by
      have texts : "modules".toList ++ '/' :: (['/'].intercalate (moduleSegments m.toList) ++ ".ts".toList) =
          "modules".toList ++ '/' :: ("__typeutil__".toList ++ ".ts".toList) := by
        rw [← toList_moduleUnit, same]
        decide
      exact List.append_cancel_right (List.cons.inj (List.append_cancel_left texts)).2
    have depth := count_moduleSpecifier m
    have flat : "modules/".toList.count '/' + "__typeutil__".toList.count '/' = 1 := by decide
    rw [toList_moduleSpecifier, joined, List.count_append, flat] at depth
    have segments := moduleSegments_ne_nil m.toList
    obtain ⟨segment, single⟩ : ∃ segment, moduleSegments m.toList = [segment] := by
      rw [← List.length_pos_iff] at segments
      exact List.length_eq_one_iff.mp (by omega)
    have whole := intercalate_moduleSegments m.toList
    rw [single, List.intercalate_singleton] at joined whole
    rw [← String.toList_inj, ← whole, joined]
  · rintro rfl
    decide

/-- The extension makes a name of whatever the last part is. -/
theorem isSafePath_moduleUnit_iff {m : String} : IsSafePath (moduleUnit m) ↔ IsSafeModule m := by
  have single : '/' ∉ ".ts".toList := by decide
  obtain ⟨dir, file, parts, extended⟩ := exists_splitOn_append (['/'].intercalate (moduleSegments m.toList)) single
  rw [splitOn_moduleSegments] at parts
  have top : "modules".toList.splitOn '/' = ["modules".toList] := List.splitOn_eq_singleton (by decide)
  have whole : (moduleUnit m).toList.splitOn '/' = "modules".toList :: dir ++ [file ++ ".ts".toList] := by
    rw [toList_moduleUnit, ← pathSegments_eq_splitOn, pathSegments_append, pathSegments_eq_splitOn,
      pathSegments_eq_splitOn, top, extended]
    rfl
  have topNamed : "modules".toList ≠ [] ∧ IsFileName "modules".toList := by decide
  have fileNamed : file ++ ".ts".toList ≠ [] ∧ IsFileName (file ++ ".ts".toList) := by
    have long : (file ++ ".ts".toList).length = file.length + 3 := List.length_append
    refine ⟨fun same => ?_, fun same => ?_, fun same => ?_⟩ <;>
      · rw [same] at long
        simp at long
  rw [IsSafePath, IsSafeModule, whole, parts, List.dropLast_concat, List.cons_append, List.forall_mem_cons,
    and_iff_right topNamed, List.forall_mem_append]
  constructor
  · exact And.left
  · exact fun safe => ⟨safe, fun part member => List.mem_singleton.mp member ▸ fileNamed⟩

/-- Where the units of a generation lie. -/
structure Generation.LiesAt (s : Scope) (g : Generation) : Prop where
  relative : ∀ path ∈ g.tree.paths, path.toList.head? ≠ some '/'
  /-- All paths go down only, if the names of all modules do. -/
  safe : (∀ path ∈ g.tree.paths, IsSafePath path) ↔ ∀ m ∈ s.modules, IsSafeModule m
  reserved : ∀ m ∈ s.modules, moduleUnit m ≠ baseUnit ∧ moduleUnit m ≠ indexUnit ∧
    (moduleUnit m = castUnit ↔ m = "__typeutil__")
  /-- Modules have a unit in common if their names differ by the kind of separators only. -/
  shared : ∀ m ∈ s.modules, ∀ m' ∈ s.modules, moduleUnit m = moduleUnit m' ↔ moduleParts m = moduleParts m'
  /-- Paths that fit below a directory give every unit a file of its own there. -/
  written : ∀ (root reason : String) (d : Disk), Disk.Fits root g.tree.paths →
    (∀ path ∈ g.tree.paths, d.HasRoom (segmentsOf root ++ segmentsOf path)) →
    ∃ d', g.tree.finalize (Disk.sink root reason) d = (.ok g.units, d') ∧
      (∀ file ∈ g.tree.files, d'.get? (segmentsOf root ++ segmentsOf file.1) = some (.file file.2)) ∧
      ∀ place, (∀ path ∈ g.tree.paths, ¬place <+: segmentsOf root ++ segmentsOf path) → d'.get? place = d.get? place

theorem head?_moduleUnit (m : String) : (moduleUnit m).toList.head? = some 'm' := by
  rw [toList_moduleUnit]
  rfl

theorem OutputTree.finalize_disk (t : OutputTree) {root : String} (reason : String) {d : Disk}
    (fits : Disk.Fits root t.paths) (room : ∀ path ∈ t.paths, d.HasRoom (segmentsOf root ++ segmentsOf path)) :
    ∃ d', t.finalize (Disk.sink root reason) d = (.ok t.size, d') ∧
      (∀ file ∈ t.files, d'.get? (segmentsOf root ++ segmentsOf file.1) = some (.file file.2)) ∧
      ∀ place, (∀ path ∈ t.paths, ¬place <+: segmentsOf root ++ segmentsOf path) →
        d'.get? place = d.get? place := by
  have paths : t.files.map Prod.fst = t.paths := by
    rw [files, List.map_map]
    rfl
  rw [← paths] at fits
  have room' : ∀ file ∈ t.files, d.HasRoom (segmentsOf root ++ segmentsOf file.1) :=
    fun file member => room file.1 (paths ▸ List.mem_map_of_mem member)
  obtain ⟨d', finished, written, untouched⟩ := Disk.persistAll_files reason fits room'
  refine ⟨d', ?_, written, fun place outside => untouched place fun file member => ?_⟩
  · rw [finalize, finished]
  · exact outside file.1 (paths ▸ List.mem_map_of_mem member)

/-- The paths of units come from the names of modules: none is absolute, and which of them go astray,
are shared or are reserved can be told from those names. -/
theorem Generation.lies_at {snapshot : Snapshot} {config : Config} {g : Generation} {s : Scope}
    (generated : snapshot.generate config = .ok g) (made : snapshot.scope config = .ok s) : g.LiesAt s := by
  obtain ⟨s', made', emitted⟩ := Snapshot.generate_eq_ok_iff.mp generated
  cases made.symm.trans made'
  obtain ⟨enums, objects, listed, defined, rfl⟩ := Scope.generate_eq_ok_iff.mp emitted
  have layout := Scope.laysOut_emission (.ofImplicit snapshot.casts) listed defined
  have fixed : IsSafePath baseUnit ∧ IsSafePath indexUnit ∧ IsSafePath castUnit := by decide
  refine ⟨fun path member => ?_, ⟨fun safe m member => ?_, fun safe path member => ?_⟩, fun m _ => ?_,
    fun m _ m' _ => moduleUnit_eq_iff, fun root reason d fits room => OutputTree.finalize_disk _ reason fits room⟩
  · rcases (layout.mem_paths_iff path).mp member with rfl | rfl | rfl | ⟨m, _, rfl⟩
    · decide
    · decide
    · decide
    · simp [head?_moduleUnit]
  · have listed := (layout.mem_paths_iff _).mpr (Or.inr (Or.inr (Or.inr ⟨m, member, rfl⟩)))
    exact isSafePath_moduleUnit_iff.mp (safe _ listed)
  · rcases (layout.mem_paths_iff path).mp member with rfl | rfl | rfl | ⟨m, inModules, rfl⟩
    · exact fixed.1
    · exact fixed.2.1
    · exact fixed.2.2
    · exact isSafePath_moduleUnit_iff.mpr (safe m inModules)
  · exact ⟨(moduleUnit_ne_baseUnit m).symm, (indexUnit_ne_moduleUnit m).symm, moduleUnit_eq_castUnit_iff⟩

/-- An empty disk has room for everything that has a name. -/
theorem Disk.hasRoom_empty {place : List String} (below : place.all (· == "..") = false) :
    ({} : Disk).HasRoom place where
  way way _ _ text := by
    rw [get?, List.lookup_nil]
    split <;> exact fun same => by cases same
  free := by
    rw [get?, below, List.lookup_nil]
    exact fun same => by cases same

namespace StrayUnits

/-- A module whose name leads upward, two modules that share a unit and one that takes that of the cast maps. -/
def snapshot : Snapshot where
  types := [⟨⟨"evil"⟩, "..::..::evil::C", .object ⟨false, [], [], [], []⟩⟩,
    ⟨⟨"deep"⟩, "a::b::D", .object ⟨false, [], [], [], []⟩⟩,
    ⟨⟨"flat"⟩, "a/b::E", .object ⟨false, [], [], [], []⟩⟩,
    ⟨⟨"casts"⟩, "__typeutil__::F", .object ⟨false, [], [], [], []⟩⟩]
  casts := []

def config : Config where
  root := none

def scope : Scope :=
  ⟨⟨snapshot.types⟩, ⟨[⟨"evil"⟩, ⟨"deep"⟩, ⟨"flat"⟩, ⟨"casts"⟩]⟩, config, none⟩

theorem scope_eq : snapshot.scope config = .ok scope := by
  cbv

def objects : List ObjectDefinition :=
  [⟨⟨"..::..::evil", "C"⟩, .ofMembers [] []⟩, ⟨⟨"a::b", "D"⟩, .ofMembers [] []⟩, ⟨⟨"a/b", "E"⟩, .ofMembers [] []⟩,
    ⟨⟨"__typeutil__", "F"⟩, .ofMembers [] []⟩]

def generation : Generation :=
  scope.emission (.ofImplicit snapshot.casts) [] objects

theorem generate_eq : snapshot.generate config = .ok generation := by
  have listed : scope.enumerations = .ok [] := by cbv
  have defined : scope.objectDefinitions = .ok objects := by cbv
  exact Snapshot.generate_eq_ok_iff.mpr ⟨scope, scope_eq, Scope.generate_eq_ok_iff.mpr ⟨_, _, listed, defined, rfl⟩⟩

theorem modules_eq : scope.modules = ["..::..::evil", "a::b", "a/b", "__typeutil__"] := by
  cbv

/-- The unit of the first module is written beside the directory that is meant for all units. -/
theorem written_beside (text : String) : (Disk.sink "out" "refused").persist (moduleUnit "..::..::evil") text {} =
    (.ok (), ⟨[(["out"], .directory), (["out", "modules"], .directory), (["evil.ts"], .file text)]⟩) := by
  have path : "out" ++ "/" ++ moduleUnit "..::..::evil" = "out/modules/../../evil.ts" := by decide
  have short : ¬maxPathSize < "out/modules/../../evil.ts".utf8ByteSize := by decide
  have segments : segmentsOf "out/modules/../../evil.ts" = ["out", "modules", "..", "..", "evil.ts"] := by decide
  have entered : ({} : Disk).enter [] ["out", "modules", "..", ".."] =
    (⟨[(["out"], .directory), (["out", "modules"], .directory)]⟩, some []) := by decide
  have isName : isDiskName "evil.ts" = true := by decide
  have written : Disk.write {} "out/modules/../../evil.ts" text =
      (⟨[(["out"], .directory), (["out", "modules"], .directory), (["evil.ts"], .file text)]⟩, true) := by
    simp [Disk.write, short, segments, entered, isName, Disk.get?, Disk.put, Disk.putEntry, List.lookup]
  simp only [Disk.sink, path, written]

theorem fits_shared : Disk.Fits "out" SharedUnits.generation.tree.paths := by
  have paths : SharedUnits.generation.tree.paths =
      ["modules/a/b.ts", "__base__.ts", "modules/__typeutil__.ts", "index.ts"] := by cbv
  rw [paths]
  exact ⟨by decide, by decide, by decide, by decide⟩

/-- A unit of four modules leaves the directory, while those of other modules stay there, each with its own file. -/
theorem lead_outside : snapshot.generate config = .ok generation ∧ snapshot.scope config = .ok scope ∧
    (¬∀ path ∈ generation.tree.paths, IsSafePath path) ∧
    (moduleUnit "a::b" = moduleUnit "a/b" ∧ moduleUnit "__typeutil__" = castUnit) ∧
    (∀ text, (Disk.sink "out" "refused").persist (moduleUnit "..::..::evil") text {} =
      (.ok (), ⟨[(["out"], .directory), (["out", "modules"], .directory), (["evil.ts"], .file text)]⟩)) ∧
    ∃ d', SharedUnits.generation.tree.finalize (Disk.sink "out" "refused") {} =
        (.ok SharedUnits.generation.units, d') ∧
      ∀ file ∈ SharedUnits.generation.tree.files, d'.get? (segmentsOf "out" ++ segmentsOf file.1) =
        some (.file file.2) := by
  have lies := Generation.lies_at generate_eq scope_eq
  have fine := Generation.lies_at SharedUnits.generate_eq SharedUnits.scope_eq
  have room : ∀ path ∈ SharedUnits.generation.tree.paths,
      ({} : Disk).HasRoom (segmentsOf "out" ++ segmentsOf path) := by
    refine fun path _ => Disk.hasRoom_empty ?_
    rw [List.all_append]
    exact Bool.and_eq_false_imp.mpr fun up => by cases up
  obtain ⟨d', finished, written, _⟩ := fine.written "out" "refused" {} fits_shared room
  have member (m : String) (listed : m ∈ ["..::..::evil", "a::b", "a/b", "__typeutil__"]) : m ∈ scope.modules := by
    rwa [modules_eq]
  refine ⟨generate_eq, scope_eq, fun safe => ?_, ⟨?_, ?_⟩, written_beside, d', finished, written⟩
  · exact absurd (lies.safe.mp safe _ (member "..::..::evil" (by simp))) (by decide)
  · exact (lies.shared _ (member "a::b" (by simp)) _ (member "a/b" (by simp))).mpr (by decide)
  · exact (lies.reserved _ (member "__typeutil__" (by simp))).2.2.mpr rfl

end StrayUnits
end QueryShapes
