import Mathlib
import QueryShapes.Output.Tree
import QueryShapes.Proofs.PlainNames
import QueryShapes.Proofs.ScriptLiterals

namespace QueryShapes

/-- Goes one step along a path. The names of the directory are listed from the innermost, and
nothing lies above the last one. -/
def enter (dir : List (List Char)) (part : List Char) : Option (List (List Char)) :=
  if part = ['.'] then some dir
  else if part = ['.', '.'] then
    match dir with
    | [] => none
    | _ :: outer => some outer
  else some (part :: dir)

/-- The unit to which a relative path leads from the directory of another unit. -/
def resolvePath (unit : String) (path : List Char) : Option String :=
  (((unit.toList.splitOn '/').dropLast ++ path.splitOn '/').foldlM enter []).map fun dir =>
    String.ofList (['/'].intercalate dir.reverse) ++ ".ts"

namespace Line

/-- Other units are imported without braces, unlike the library. -/
def importsUnit : Line → Bool
  | .text 0 content =>
    "import ".toList.isPrefixOf content.toList && !"import \x7b".toList.isPrefixOf content.toList
  | _ => false

/-- What the literal at the end of a statement stands for. -/
def source? : Line → Option (List Char)
  | .text 0 content =>
    match readLiteral (content.toList.dropWhile (· ≠ '"')).tail with
    | some (source, [';']) => some source
    | _ => none
  | _ => none

/-- The unit to which an import leads from the unit where it stands. -/
def importTarget? (unit : String) (line : Line) : Option String :=
  line.source?.bind (resolvePath unit)

theorem source?_eq_some_iff {lead text : String} (bare : '"' ∉ lead.toList) {source : List Char} :
    (Line.of (lead ++ "\"" ++ text ++ "\";")).source? = some source ↔
      readLiteral (text.toList ++ '"' :: [';']) = some (source, [';']) := by
  have literal : ((lead ++ "\"" ++ text ++ "\";").toList.dropWhile (· ≠ '"')).tail =
      text.toList ++ '"' :: [';'] := by
    have outside : ∀ c ∈ lead.toList, (decide (c ≠ '"')) = true := by
      intro c member
      exact decide_eq_true fun same => bare (same ▸ member)
    rw [String.toList_append, String.toList_append, String.toList_append, List.append_assoc, List.append_assoc,
      List.dropWhile_append_of_pos outside]
    rfl
  simp only [source?, Line.of, literal]
  split
  · rename_i found
    rw [found]
    simp
  · rename_i other
    constructor
    · intro impossible
      cases impossible
    · intro found
      exact absurd found (other source)

end Line

/-- A part of a path that names a file or directory. -/
def IsFileName (part : List Char) : Prop :=
  part ≠ ['.'] ∧ part ≠ ['.', '.']

instance (part : List Char) : Decidable (IsFileName part) :=
  inferInstanceAs (Decidable (_ ∧ _))

/-- The length of a path of these parts, with a slash behind each. -/
def pathLength (parts : List (List Char)) : Nat :=
  (parts.map fun part => part.length + 1).sum

theorem length_intercalate {parts : List (List Char)} (nonempty : parts ≠ []) :
    (['/'].intercalate parts).length + 1 = pathLength parts := by
  induction parts with
  | nil => exact absurd rfl nonempty
  | cons part parts ih =>
    cases parts with
    | nil => simp [pathLength]
    | cons next parts =>
      rw [List.intercalate_cons_cons, pathLength, List.map_cons, List.sum_cons, ← pathLength, ← ih (by simp)]
      simp only [List.length_append, List.length_singleton]
      omega

theorem pathLength_splitOn (path : List Char) : pathLength (path.splitOn '/') = path.length + 1 := by
  rw [← length_intercalate (List.splitOn_ne_nil '/' path), List.intercalate_splitOn]

theorem foldlM_enter_of_fileNames {parts : List (List Char)} (names : ∀ part ∈ parts, IsFileName part)
    (dir : List (List Char)) : parts.foldlM enter dir = some (parts.reverse ++ dir) := by
  induction parts generalizing dir with
  | nil => rfl
  | cons part parts ih =>
    obtain ⟨⟨stays, leaves⟩, names⟩ := List.forall_mem_cons.mp names
    rw [List.foldlM_cons, enter.eq_def, if_neg stays, if_neg leaves, Option.bind_eq_bind, Option.bind_some,
      ih names]
    simp

/-- A path that is gone in other than names comes out shorter. -/
theorem foldlM_enter_shape {parts dir dir' : List (List Char)} (gone : parts.foldlM enter dir = some dir') :
    (dir' = parts.reverse ++ dir ∧ ∀ part ∈ parts, IsFileName part) ∨
      pathLength dir' < pathLength dir + pathLength parts := by
  induction parts generalizing dir with
  | nil =>
    cases gone
    exact Or.inl ⟨rfl, List.forall_mem_nil _⟩
  | cons part parts ih =>
    have whole : pathLength (part :: parts) = part.length + 1 + pathLength parts := by simp [pathLength]
    have bound {dir : List (List Char)} (gone : parts.foldlM enter dir = some dir') :
        pathLength dir' ≤ pathLength dir + pathLength parts := by
      rcases ih gone with ⟨rfl, _⟩ | shorter
      · simp [pathLength, Nat.add_comm]
      · exact Nat.le_of_lt shorter
    obtain ⟨next, entered, later⟩ := Option.bind_eq_some_iff.mp gone
    unfold enter at entered
    split at entered
    · cases entered
      have := bound later
      exact Or.inr (by omega)
    · rename_i stays
      split at entered
      · split at entered
        · cases entered
        · rename_i name _
          cases entered
          have := bound later
          have inner : pathLength next ≤ pathLength (name :: next) := by simp [pathLength]
          exact Or.inr (by omega)
      · rename_i leaves
        cases entered
        rcases ih later with ⟨rfl, names⟩ | shorter
        · exact Or.inl ⟨by simp, List.forall_mem_cons.mpr ⟨⟨stays, leaves⟩, names⟩⟩
        · have pushed : pathLength (part :: dir) = part.length + 1 + pathLength dir := by simp [pathLength]
          exact Or.inr (by omega)

/-- A path spells the place that it leads to by names alone, or is longer than that. -/
theorem foldlM_enter_splitOn {path text : List Char} (full : path ≠ []) {dir : List (List Char)}
    (gone : (text.splitOn '/').foldlM enter [] = some dir) (joined : ['/'].intercalate dir.reverse = path) :
    (text = path ∧ ∀ part ∈ text.splitOn '/', IsFileName part) ∨ path.length < text.length := by
  have inside : dir.reverse ≠ [] := by
    intro empty
    rw [empty] at joined
    exact full joined.symm
  have long : pathLength dir = path.length + 1 := by
    rw [← joined, length_intercalate inside]
    simp [pathLength]
  rcases foldlM_enter_shape gone with ⟨rfl, names⟩ | shorter
  · rw [List.append_nil, List.reverse_reverse, List.intercalate_splitOn] at joined
    exact Or.inl ⟨joined, names⟩
  · rw [pathLength_splitOn, long] at shorter
    simp only [pathLength, List.map_nil, List.sum_nil] at shorter
    exact Or.inr (by omega)

/-- A path from a unit at the root starts there. -/
theorem resolvePath_root {unit : String} (atRoot : (unit.toList.splitOn '/').dropLast = []) (text : List Char) :
    resolvePath unit (['.', '/'] ++ text) =
      ((text.splitOn '/').foldlM enter []).map fun dir =>
        String.ofList (['/'].intercalate dir.reverse) ++ ".ts" := by
  have single : '/' ∉ ['.'] := by decide
  have parts : (['.', '/'] ++ text).splitOn '/' = ['.'] :: text.splitOn '/' :=
    List.splitOn_append_cons_self_of_not_mem single text
  rw [resolvePath, atRoot, List.nil_append, parts, List.foldlM_cons]
  rfl

/-- An import from a unit at the root leads to the unit whose path it spells, if every character stands
for itself and every part of the path is a name. -/
theorem Line.importTarget?_root {unit lead : String} (atRoot : (unit.toList.splitOn '/').dropLast = [])
    (bare : '"' ∉ lead.toList) {path : String} (full : path.toList ≠ []) :
    (Line.of (lead ++ "\"" ++ ("./" ++ path) ++ "\";")).importTarget? unit = some (path ++ ".ts") ↔
      IsPlainSource path.toList ∧ ∀ part ∈ path.toList.splitOn '/', IsFileName part := by
  have here : IsPlainSource ['.', '/'] := by decide
  have literal : ("./" ++ path).toList ++ '"' :: [';'] = ['.', '/'] ++ (path.toList ++ '"' :: [';']) := by
    simp
  constructor
  · intro leads
    obtain ⟨source, read, resolved⟩ := Option.bind_eq_some_iff.mp leads
    rw [source?_eq_some_iff bare, literal, readLiteral_append here] at read
    obtain ⟨⟨text, _⟩, read, same⟩ := Option.map_eq_some_iff.mp read
    cases same
    obtain ⟨raw, parts, shape⟩ := readLiteral_shape read
    cases List.append_cancel_right parts
    rw [resolvePath_root atRoot] at resolved
    obtain ⟨dir, gone, same⟩ := Option.map_eq_some_iff.mp resolved
    have joined : ['/'].intercalate dir.reverse = path.toList := by
      simpa [← String.toList_inj] using same
    -- what is read is no longer than what is written, and where it leads is no longer than what is read
    rcases foldlM_enter_splitOn full gone joined with ⟨rfl, names⟩ | shorter
    · exact ⟨(shape.resolve_right (Nat.lt_irrefl _)).2, names⟩
    · rcases shape with ⟨rfl, _⟩ | shorter'
      · exact absurd shorter (Nat.lt_irrefl _)
      · exact absurd shorter (Nat.lt_asymm shorter')
  · rintro ⟨plain, names⟩
    have read : (Line.of (lead ++ "\"" ++ ("./" ++ path) ++ "\";")).source? = some (['.', '/'] ++ path.toList) := by
      rw [source?_eq_some_iff bare, literal, readLiteral_append here, readLiteral_plain plain]
      rfl
    rw [importTarget?, read, Option.bind_some, resolvePath_root atRoot, foldlM_enter_of_fileNames names,
      List.append_nil, Option.map_some, List.reverse_reverse, List.intercalate_splitOn, String.ofList_toList]

theorem splitOn_cons (c : Char) (text : List Char) :
    (c :: text).splitOn '/' =
      if c = '/' then [] :: text.splitOn '/' else (text.splitOn '/').modifyHead (List.cons c) := by
  rw [List.splitOn, List.splitOnP_cons_eq_if_modifyHead]
  simp [List.splitOn]

theorem length_splitOn (text : List Char) : (text.splitOn '/').length = text.count '/' + 1 := by
  induction text with
  | nil => rfl
  | cons c text ih =>
    rw [splitOn_cons, List.count_cons]
    split
    · rename_i slash
      simp [slash, ih]
    · rename_i other
      simp [other, ih]

/-- What is added to the file name does not change the directory. -/
theorem dropLast_splitOn_append (path : List Char) {extension : List Char} (single : '/' ∉ extension) :
    ((path ++ extension).splitOn '/').dropLast = (path.splitOn '/').dropLast := by
  induction path with
  | nil => rw [List.nil_append, List.splitOn_eq_singleton single, List.splitOn_nil]; rfl
  | cons c path ih =>
    rw [List.cons_append, splitOn_cons, splitOn_cons]
    split
    · rw [List.dropLast_cons_of_ne_nil (List.splitOn_ne_nil '/' _), ih,
        List.dropLast_cons_of_ne_nil (List.splitOn_ne_nil '/' _)]
    · have modified (parts : List (List Char)) :
          (parts.modifyHead (List.cons c)).dropLast = parts.dropLast.modifyHead (List.cons c) := by
        rcases parts with _ | ⟨part, _ | ⟨next, parts⟩⟩ <;> rfl
      rw [modified, modified, ih]

theorem count_intercalate (sep : List Char) {parts : List (List Char)} (nonempty : parts ≠ []) (c : Char) :
    (sep.intercalate parts).count c + sep.count c =
      (parts.map (List.count c)).sum + parts.length * sep.count c := by
  induction parts with
  | nil => exact absurd rfl nonempty
  | cons part parts ih =>
    cases parts with
    | nil => simp
    | cons next parts =>
      have rest := ih (by simp)
      rw [List.intercalate_cons_cons]
      simp only [List.count_append, List.map_cons, List.sum_cons, List.length_cons, Nat.add_mul,
        Nat.one_mul] at rest ⊢
      omega

theorem toList_moduleSpecifier (m : String) :
    (moduleSpecifier m).toList = "modules/".toList ++ ['/'].intercalate (moduleSegments m.toList) := by
  simp [moduleSpecifier, String.toList_intercalate, Function.comp_def]

/-- The unit of a module lies as deep as its name has parts, and deeper by each slash in it. -/
theorem count_moduleSpecifier (m : String) :
    (moduleSpecifier m).toList.count '/' = (moduleSegments m.toList).length + m.toList.count '/' := by
  have nonempty := moduleSegments_ne_nil m.toList
  have slashes := count_intercalate ['/'] nonempty '/'
  have colons := count_intercalate [':', ':'] nonempty '/'
  rw [intercalate_moduleSegments] at colons
  have lead : "modules/".toList.count '/' = 1 := by decide
  have one : ['/'].count '/' = 1 := by decide
  have none : [':', ':'].count '/' = 0 := by decide
  rw [toList_moduleSpecifier, List.count_append, lead]
  rw [one] at slashes
  rw [none] at colons
  omega

theorem toList_pathToRoot (m : String) :
    (pathToRoot m).toList = (List.replicate (moduleSegments m.toList).length ['.', '.', '/']).flatten := by
  rw [pathToRoot]
  induction moduleSegments m.toList with
  | nil => simp
  | cons segment segments ih =>
    rw [List.map_cons, String.join_cons, String.toList_append, ih]
    rfl

/-- The way to the root has a step for each part of a module's name. -/
theorem splitOn_pathToRoot (m : String) (file : List Char) :
    ((pathToRoot m).toList ++ file).splitOn '/' =
      List.replicate (moduleSegments m.toList).length ['.', '.'] ++ file.splitOn '/' := by
  have single : '/' ∉ ['.', '.'] := by decide
  rw [toList_pathToRoot]
  induction (moduleSegments m.toList).length with
  | zero => simp
  | succ count ih =>
    rw [List.replicate_succ, List.flatten_cons, List.replicate_succ]
    exact (List.splitOn_append_cons_self_of_not_mem single _).trans (congrArg _ ih)

theorem foldlM_enter_up (count : Nat) {dir : List (List Char)} (within : count ≤ dir.length) :
    (List.replicate count ['.', '.']).foldlM enter dir = some (dir.drop count) := by
  induction count generalizing dir with
  | zero => rfl
  | succ count ih =>
    cases dir with
    | nil => simp at within
    | cons name dir =>
      rw [List.replicate_succ, List.foldlM_cons]
      exact ih (by simpa using within)

theorem baseUnit_path_iff {above : List (List Char)} :
    String.ofList (['/'].intercalate ("__base__".toList :: above).reverse) ++ ".ts" = baseUnit ↔ above = [] := by
  constructor
  · intro atRoot
    have joined : ['/'].intercalate ("__base__".toList :: above).reverse ++ ".ts".toList =
        "__base__".toList ++ ".ts".toList := by
      have texts := congrArg String.toList atRoot
      rwa [String.toList_append, String.toList_ofList] at texts
    have long := length_intercalate (List.reverse_ne_nil_iff.mpr (List.cons_ne_nil "__base__".toList above))
    rw [List.append_cancel_right joined] at long
    rcases above with _ | ⟨name, above⟩
    · rfl
    · simp [pathLength] at long
      omega
  · rintro rfl
    rfl

/-- From the unit of a module its way to the root leads there, unless the module's name has a slash. -/
theorem resolvePath_base {m : String} (names : ∀ part ∈ (moduleSpecifier m).toList.splitOn '/', IsFileName part) :
    resolvePath (moduleUnit m) ((pathToRoot m).toList ++ "__base__".toList) = some baseUnit ↔ '/' ∉ m.toList := by
  have base : "__base__".toList.splitOn '/' = ["__base__".toList] := List.splitOn_eq_singleton (by decide)
  have extension : (moduleUnit m).toList = (moduleSpecifier m).toList ++ ".ts".toList := String.toList_append ..
  have parts : ((moduleUnit m).toList.splitOn '/').dropLast =
      ((moduleSpecifier m).toList.splitOn '/').dropLast := by
    rw [extension, dropLast_splitOn_append _ (by decide)]
  rw [resolvePath, parts]
  generalize same : ((moduleSpecifier m).toList.splitOn '/').dropLast = dir
  have fileNames : ∀ part ∈ dir, IsFileName part := by
    rw [← same]
    exact fun part member => names part ((List.dropLast_sublist _).subset member)
  have depth : dir.length = (moduleSegments m.toList).length + m.toList.count '/' := by
    rw [← same, List.length_dropLast, length_splitOn, count_moduleSpecifier]
    rfl
  have within : (moduleSegments m.toList).length ≤ dir.reverse.length := by simp [depth]
  have last (above : List (List Char)) :
      ["__base__".toList].foldlM enter above = some ("__base__".toList :: above) :=
    foldlM_enter_of_fileNames (by decide) above
  rw [splitOn_pathToRoot, base, List.foldlM_append, foldlM_enter_of_fileNames fileNames, List.append_nil,
    Option.bind_eq_bind, Option.bind_some, List.foldlM_append, foldlM_enter_up _ within, Option.bind_eq_bind,
    Option.bind_some, last, Option.map_some, Option.some_inj, baseUnit_path_iff]
  -- of the directory one name is left for each slash
  have above : (dir.reverse.drop (moduleSegments m.toList).length).length = m.toList.count '/' := by
    simp [depth]
  rw [← List.length_eq_zero_iff, above, List.count_eq_zero]

theorem forall_mem_intercalate_iff {sep : List Char} {P : Char → Prop} (separator : ∀ c ∈ sep, P c)
    (parts : List (List Char)) :
    (∀ c ∈ sep.intercalate parts, P c) ↔ ∀ part ∈ parts, ∀ c ∈ part, P c := by
  induction parts with
  | nil => simp
  | cons part parts ih =>
    cases parts with
    | nil => simp
    | cons next parts =>
      rw [List.intercalate_cons_cons, List.forall_mem_append, List.forall_mem_append, ih, and_iff_left separator]
      simp only [List.mem_cons, forall_eq_or_imp]

/-- A module whose unit can be imported by its path: its name stands for itself in a literal, and its
path has names for all parts. -/
structure IsImportable (m : String) : Prop where
  plain : IsPlainSource m.toList
  names : ∀ part ∈ (moduleSpecifier m).toList.splitOn '/', IsFileName part

theorem isPlainSource_moduleSpecifier_iff {m : String} :
    IsPlainSource (moduleSpecifier m).toList ↔ IsPlainSource m.toList := by
  have lead : IsPlainSource "modules/".toList := by decide
  have slash : IsPlainSource ['/'] := by decide
  have colons : IsPlainSource [':', ':'] := by decide
  have parts := forall_mem_intercalate_iff colons (moduleSegments m.toList)
  rw [intercalate_moduleSegments] at parts
  rw [toList_moduleSpecifier, isPlainSource_append_iff, and_iff_right lead]
  exact (forall_mem_intercalate_iff slash _).trans parts.symm

/-- An import of a module from the root leads to its unit when the module is importable. -/
theorem Line.importTarget?_module {unit lead : String} (atRoot : (unit.toList.splitOn '/').dropLast = [])
    (bare : '"' ∉ lead.toList) (m : String) :
    (Line.of (lead ++ "\"" ++ ("./" ++ moduleSpecifier m) ++ "\";")).importTarget? unit = some (moduleUnit m) ↔
      IsImportable m := by
  have full : (moduleSpecifier m).toList ≠ [] := by simp [moduleSpecifier, String.toList_append]
  rw [moduleUnit, importTarget?_root atRoot bare full, isPlainSource_moduleSpecifier_iff]
  constructor
  · rintro ⟨plain, names⟩
    exact ⟨plain, names⟩
  · rintro ⟨plain, names⟩
    exact ⟨plain, names⟩

theorem isPlainSource_pathToBase (m : String) : IsPlainSource (pathToRoot m ++ "__base__").toList := by
  have file : IsPlainSource "__base__".toList := by decide
  have step : IsPlainSource ['.', '.', '/'] := by decide
  rw [String.toList_append, isPlainSource_append_iff, toList_pathToRoot]
  refine ⟨fun c member => ?_, file⟩
  obtain ⟨part, listed, inPart⟩ := List.mem_flatten.mp member
  exact step c (List.eq_of_mem_replicate listed ▸ inPart)

/-- The import of the base unit is always read, and leads there from the unit of a module whose name
has no slash. -/
theorem Line.importTarget?_base {lead : String} (bare : '"' ∉ lead.toList) (m : String) :
    (∃ source, (Line.of (lead ++ "\"" ++ (pathToRoot m ++ "__base__") ++ "\";")).source? = some source) ∧
      ((∀ part ∈ (moduleSpecifier m).toList.splitOn '/', IsFileName part) →
        ((Line.of (lead ++ "\"" ++ (pathToRoot m ++ "__base__") ++ "\";")).importTarget? (moduleUnit m) =
          some baseUnit ↔ '/' ∉ m.toList)) := by
  have read : (Line.of (lead ++ "\"" ++ (pathToRoot m ++ "__base__") ++ "\";")).source? =
      some (pathToRoot m ++ "__base__").toList := by
    rw [source?_eq_some_iff bare, readLiteral_plain (isPlainSource_pathToBase m)]
  refine ⟨⟨_, read⟩, fun names => ?_⟩
  rw [importTarget?, read, Option.bind_some, String.toList_append, resolvePath_base names]

end QueryShapes
