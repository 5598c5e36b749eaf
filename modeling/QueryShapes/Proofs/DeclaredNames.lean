import QueryShapes.Proofs.PlainNames
import QueryShapes.Proofs.SourceTokens
import QueryShapes.Proofs.UnitContents
import Mathlib.Data.Set.Image

namespace QueryShapes

/-- The word that stands behind a lead. -/
def wordAfter (lead content : String) : Option String :=
  if lead.toList.isPrefixOf content.toList then
    some (String.ofList ((content.toList.drop lead.length).takeWhile isIdentChar))
  else none

/-- The name that a line of a block declares behind a lead. -/
def Line.declared? (depth : Nat) (lead : String) : Line → Option String
  | .blank => none
  | .text depth' content => if depth' = depth then wordAfter lead content else none

def declaredNames (depth : Nat) (lead : String) (lines : List Line) : List String :=
  lines.filterMap (Line.declared? depth lead)

/-- The enum or object that a line exports. -/
def Line.exported? (line : Line) : Option String :=
  (line.declared? 0 "export enum ").or (line.declared? 0 "export const ")

def exportedNames (lines : List Line) : List String :=
  lines.filterMap Line.exported?

/-- The kind and the name of what a line exports. -/
def Line.exports? (line : Line) : Option (String × String) :=
  (line.declared? 0 "export ").bind fun kind => (line.declared? 0 ("export " ++ kind ++ " ")).map (kind, ·)

def exportsOf (lines : List Line) : List (String × String) :=
  lines.filterMap Line.exports?

theorem wordAfter_append {word rest : String} (lead : String) (isWord : IsWord word) (ends : EndsWord rest.toList) :
    wordAfter lead (lead ++ word ++ rest) = some word := by
  have parts : (lead ++ word ++ rest).toList = lead.toList ++ (word.toList ++ rest.toList) := by
    simp only [String.toList_append, List.append_assoc]
  rw [wordAfter, parts, if_pos (List.isPrefixOf_iff_prefix.mpr (List.prefix_append ..)), ← String.length_toList,
    List.drop_left, (takeWhile_word isWord.ident ends).1, String.ofList_toList]

theorem wordAfter_of_startsWith {lead word content : String} (isWord : IsWord word)
    (starts : (lead ++ word ++ " ").toList <+: content.toList) : wordAfter lead content = some word := by
  obtain ⟨rest, parts⟩ := starts
  have ends : EndsWord (" " ++ String.ofList rest).toList := by simp [isIdentChar]
  have whole : content = lead ++ word ++ (" " ++ String.ofList rest) := by
    simp [← String.toList_inj, ← parts]
  rw [whole, wordAfter_append lead isWord ends]

theorem startsWith_of_wordAfter {lead content word : String} (found : wordAfter lead content = some word) :
    lead.toList <+: content.toList := by
  unfold wordAfter at found
  split at found
  · rename_i starts
    exact List.isPrefixOf_iff_prefix.mp starts
  · cases found

theorem declaredNames_eq (depth : Nat) (lead : String) (lines : List Line) :
    declaredNames depth lead lines = (contentsAt depth lines).filterMap (wordAfter lead) := by
  rw [declaredNames, contentsAt, List.filterMap_filterMap]
  refine List.filterMap_congr fun line _ => ?_
  cases line with
  | blank => rfl
  | text here content => by_cases same : here = depth <;> simp [Line.declared?, Line.contentAt?, same]

theorem declaredNames_append (depth : Nat) (lead : String) (lines lines' : List Line) :
    declaredNames depth lead (lines ++ lines') =
      declaredNames depth lead lines ++ declaredNames depth lead lines' :=
  List.filterMap_append

theorem declaredNames_nested (depth : Nat) (lead : String) (lines : List Line) :
    declaredNames (depth + 1) lead (nested lines) = declaredNames depth lead lines := by
  rw [declaredNames_eq, contentsAt_nested, declaredNames_eq]

theorem declaredNames_zero_nested (lead : String) (lines : List Line) :
    declaredNames 0 lead (nested lines) = [] := by
  rw [declaredNames_eq, contentsAt_zero_nested, List.filterMap_nil]

/-- Lines that each declare a name. -/
theorem declaredNames_map {α : Type} {lead : String} {f word rest : α → String}
    (spelled : ∀ a, f a = lead ++ word a ++ rest a) (isWord : ∀ a, IsWord (word a))
    (ends : ∀ a, EndsWord (rest a).toList) (items : List α) :
    declaredNames 0 lead (items.map fun a => .of (f a)) = items.map word := by
  rw [declaredNames, List.filterMap_map, ← List.filterMap_eq_map]
  refine List.filterMap_congr fun a _ => ?_
  simp only [Function.comp_apply, Line.of, Line.declared?, if_pos, spelled,
    wordAfter_append lead (isWord a) (ends a)]

section Exports

/-- Behind a kind stands the name of what is exported as that. -/
theorem declared?_export (lead kind : String) (spelled : "export " ++ kind ++ " " = lead) (isWord : IsWord kind)
    (line : Line) :
    line.declared? 0 lead = line.exports?.bind fun e => if e.1 = kind then some e.2 else none := by
  subst lead
  cases line with
  | blank => rfl
  | text depth content =>
    by_cases outer : depth = 0
    · simp only [Line.exports?, Line.declared?, if_pos outer]
      cases found : wordAfter ("export " ++ kind ++ " ") content with
      | some name =>
        rw [wordAfter_of_startsWith isWord (startsWith_of_wordAfter found), Option.bind_some, found]
        simp
      | none =>
        cases other : wordAfter "export " content with
        | none => rfl
        | some kind' =>
          by_cases same : kind' = kind
          · simp [same, found]
          · cases named : wordAfter ("export " ++ kind' ++ " ") content <;> simp [named, same]
    · simp only [Line.exports?, Line.declared?, if_neg outer, Option.bind_none]

theorem declaredNames_export (lead kind : String) (spelled : "export " ++ kind ++ " " = lead) (isWord : IsWord kind)
    (lines : List Line) :
    declaredNames 0 lead lines =
      (exportsOf lines).filterMap fun e => if e.1 = kind then some e.2 else none := by
  rw [declaredNames, exportsOf, List.filterMap_filterMap]
  exact List.filterMap_congr fun line _ => declared?_export lead kind spelled isWord line

theorem declaredEnums_eq (lines : List Line) : declaredNames 0 "export enum " lines =
    (exportsOf lines).filterMap fun e => if e.1 = "enum" then some e.2 else none :=
  declaredNames_export _ "enum" (by decide) (by decide) lines

theorem declaredConsts_eq (lines : List Line) : declaredNames 0 "export const " lines =
    (exportsOf lines).filterMap fun e => if e.1 = "const" then some e.2 else none :=
  declaredNames_export _ "const" (by decide) (by decide) lines

theorem exportedNames_eq (lines : List Line) :
    exportedNames lines =
      (exportsOf lines).filterMap fun e => if e.1 = "enum" ∨ e.1 = "const" then some e.2 else none := by
  rw [exportedNames, exportsOf, List.filterMap_filterMap]
  refine List.filterMap_congr fun line _ => ?_
  rw [Line.exported?, declared?_export _ "enum" (by decide) (by decide),
    declared?_export _ "const" (by decide) (by decide)]
  cases line.exports? with
  | none => rfl
  | some e => by_cases isEnum : e.1 = "enum" <;> simp [isEnum]

theorem exports?_of {lead kind word rest : String} (spelled : "export " ++ kind ++ " " = lead)
    (isKind : IsWord kind) (isWord : IsWord word) (ends : EndsWord rest.toList) :
    (Line.of (lead ++ word ++ rest)).exports? = some (kind, word) := by
  subst lead
  have starts : ("export " ++ kind ++ " ").toList <+: ("export " ++ kind ++ " " ++ word ++ rest).toList := by
    simp only [String.toList_append, List.append_assoc, List.prefix_append_right_inj, List.prefix_append]
  rw [Line.exports?, Line.of, Line.declared?, if_pos rfl, wordAfter_of_startsWith isKind starts, Option.bind_some,
    Line.declared?, if_pos rfl, wordAfter_append _ isWord ends, Option.map_some]

theorem exportsOf_append (lines lines' : List Line) :
    exportsOf (lines ++ lines') = exportsOf lines ++ exportsOf lines' :=
  List.filterMap_append

theorem exportsOf_blank_cons (lines : List Line) : exportsOf (.blank :: lines) = exportsOf lines :=
  rfl

theorem exportsOf_nested (lines : List Line) : exportsOf (nested lines) = [] := by
  rw [exportsOf, nested, List.filterMap_map, List.filterMap_eq_nil_iff]
  rintro (_ | ⟨depth, content⟩) _ <;> rfl

theorem exportsOf_flatMap {α : Type} {f : α → List Line} {named : α → String × String}
    (each : ∀ a, exportsOf (f a) = [named a]) (items : List α) : exportsOf (items.flatMap f) = items.map named := by
  rw [exportsOf, List.filterMap_flatMap, List.map_eq_flatMap]
  exact List.flatMap_congr fun a _ => each a

/-- A block exports what its first line does. -/
theorem exportsOf_block {lead kind word rest : String} (spelled : "export " ++ kind ++ " " = lead)
    (isKind : IsWord kind) (isWord : IsWord word) (ends : EndsWord rest.toList) (inner : List Line)
    {last : List Line} (closes : exportsOf last = []) :
    exportsOf ([.of (lead ++ word ++ rest)] ++ nested inner ++ last) = [(kind, word)] := by
  rw [exportsOf_append, exportsOf_append, exportsOf_nested, closes, List.append_nil, List.append_nil]
  exact List.filterMap_cons_some (exports?_of spelled isKind isWord ends)

theorem exportsOf_enumeration (e : Enumeration) : exportsOf e.lines = [("enum", e.name.localIdent)] := by
  have ends : EndsWord " \x7b".toList := by simp [isIdentChar]
  rw [Enumeration.lines]
  exact exportsOf_block (by decide) (by decide) (isWord_identOf _) ends _ (by decide)

theorem exportsOf_definition (lib : ClientLibrary) (d : ObjectDefinition) :
    exportsOf (d.exportLines lib) = [("const", d.name.localIdent)] := by
  have ends : EndsWord " = \x7b".toList := by simp [isIdentChar]
  rw [ObjectDefinition.exportLines]
  exact exportsOf_block (by decide) (by decide) (isWord_identOf _) ends _ (by decide)

/-- A cast map is exported as a type, and so is the union that its parameters are restricted to. -/
theorem exportsOf_matrix (m : CastMatrix) {mapName : String} (isWord : IsWord mapName) :
    exportsOf (m.lines mapName) =
      (if m.hasKey then [mapName ++ "Key", mapName] else [mapName]).map ("type", ·) := by
  have single {word : String} (isWord : IsWord word) {rest : String} (ends : EndsWord rest.toList) :
      exportsOf [.of ("export type " ++ word ++ rest)] = [("type", word)] :=
    List.filterMap_cons_some (exports?_of (by decide) (by decide) isWord ends)
  have free := single isWord (show EndsWord "<A, B> =".toList by simp [isIdentChar])
  have union := single (isWord.append (by decide : IsWord "Key")) (show EndsWord " =".toList by simp [isIdentChar])
  have restricted (key : String) :
      exportsOf [.blank,
          .of ("export type " ++ mapName ++ "<A extends " ++ key ++ ", B extends " ++ key ++ "> =")] =
        [("type", mapName)] := by
    have ends : EndsWord ("<A extends " ++ key ++ ", B extends " ++ key ++ "> =").toList := by simp [isIdentChar]
    rw [exportsOf_blank_cons]
    simpa only [String.append_assoc] using single isWord ends
  rw [CastMatrix.lines, CastMatrix.headLines, exportsOf_append, exportsOf_nested, List.append_nil]
  by_cases keyed : m.hasKey = true
  · rw [if_pos keyed, if_pos keyed, exportsOf_append, exportsOf_append, exportsOf_nested, union, restricted]
    rfl
  · rw [if_neg keyed, if_neg keyed, free]
    rfl

theorem exportsOf_castLines (s : Scope) (casts : CastMap) :
    exportsOf (s.castLines casts) = exportsOf ((s.scalarMatrix casts).lines "getSharedParentScalar") ++
      exportsOf (s.objectMatrix.lines "getSharedParentObject") := by
  have gap : exportsOf [.blank] = [] := rfl
  rw [Scope.castLines, exportsOf_append, exportsOf_append, gap, List.append_nil]

/-- The cast maps are exported as types. -/
theorem kind_of_mem_castLines {s : Scope} {casts : CastMap} {e : String × String}
    (member : e ∈ exportsOf (s.castLines casts)) : e.1 = "type" := by
  rw [exportsOf_castLines, exportsOf_matrix _ (by decide), exportsOf_matrix _ (by decide),
    ← List.map_append] at member
  obtain ⟨_, _, rfl⟩ := List.mem_map.mp member
  rfl

theorem declaredNames_castLines (s : Scope) (casts : CastMap) :
    declaredNames 0 "export enum " (s.castLines casts) = [] ∧
      declaredNames 0 "export const " (s.castLines casts) = [] := by
  rw [declaredEnums_eq, declaredConsts_eq, List.filterMap_eq_nil_iff, List.filterMap_eq_nil_iff]
  constructor <;> exact fun e member => by simp [kind_of_mem_castLines member]

end Exports

/-- What is added to all identifiers alike keeps them apart. -/
theorem nodup_map_identOf_iff {f : String → String} (injective : Function.Injective f) {modules : List String} :
    (modules.map fun m => f (identOf m)).Nodup ↔ (modules.map identOf).Nodup := by
  have composed : (modules.map fun m => f (identOf m)) = (modules.map identOf).map f := by
    rw [List.map_map]
    rfl
  rw [composed, List.nodup_map_iff injective]

theorem enumAliases_baseHead (lib : ClientLibrary) (modules : List String) :
    declaredNames 0 "import type * as " (baseHead lib modules) = modules.map fun m => identOf m ++ "Types" := by
  have library : declaredNames 0 "import type * as " [.of lib.importLine, .blank] = [] := by
    have apart : wordAfter "import type * as " lib.importLine = none := by
      delta ClientLibrary.importLine
      simp [wordAfter]
    simp only [declaredNames, Line.of, Line.declared?, List.filterMap_cons, if_pos, apart, List.filterMap_nil]
  have spelled (m : String) : "import type * as " ++ identOf m ++ "Types from \"./" ++ moduleSpecifier m ++ "\";" =
      "import type * as " ++ (identOf m ++ "Types") ++ (" from \"./" ++ moduleSpecifier m ++ "\";") := by
    simp [← String.toList_inj]
  rw [baseHead, declaredNames_append, library, List.nil_append]
  exact declaredNames_map spelled (fun m => (isWord_identOf m).append (by decide)) (fun m => by simp [isIdentChar])
    modules

theorem nodup_enumAliases_baseHead_iff {lib : ClientLibrary} {modules : List String} :
    (declaredNames 0 "import type * as " (baseHead lib modules)).Nodup ↔ (modules.map identOf).Nodup := by
  rw [enumAliases_baseHead]
  refine nodup_map_identOf_iff (f := (· ++ "Types")) fun text text' same => ?_
  simpa [← String.toList_inj] using same

theorem importAliases_indexHead (modules : List String) :
    declaredNames 0 "import * as " (indexHead modules) = modules.map fun m => "_" ++ identOf m := by
  have spelled (m : String) : "import * as _" ++ identOf m ++ " from \"./" ++ moduleSpecifier m ++ "\";" =
      "import * as " ++ ("_" ++ identOf m) ++ (" from \"./" ++ moduleSpecifier m ++ "\";") := by
    simp [← String.toList_inj]
  exact declaredNames_map spelled (fun m => IsWord.append (by decide) (isWord_identOf m))
    (fun m => by simp [isIdentChar]) modules

theorem nodup_importAliases_indexHead_iff {modules : List String} :
    (declaredNames 0 "import * as " (indexHead modules)).Nodup ↔ (modules.map identOf).Nodup := by
  rw [importAliases_indexHead]
  refine nodup_map_identOf_iff (f := ("_" ++ ·)) fun text text' same => ?_
  simpa [← String.toList_inj] using same

theorem keys_indexBody (modules : List String) : declaredNames 1 "" (indexBody modules) = modules.map identOf := by
  have spelled (m : String) : identOf m ++ ": _" ++ identOf m ++ "," =
      "" ++ identOf m ++ (": _" ++ identOf m ++ ",") := by
    simp [← String.toList_inj]
  have keys : declaredNames 0 "" (modules.map fun m => .of (identOf m ++ ": _" ++ identOf m ++ ",")) =
      modules.map identOf :=
    declaredNames_map spelled isWord_identOf (fun m => by simp [isIdentChar]) modules
  rw [indexBody, declaredNames_append, declaredNames_append, declaredNames_nested, keys]
  exact List.append_nil _

section Injective

variable {α β : Type} {list : List α} {f : α → β} (distinct : list.Nodup)
include distinct

theorem nodup_map_iff_injOn {set : Set α} (same : ∀ a, a ∈ list ↔ a ∈ set) :
    (list.map f).Nodup ↔ Set.InjOn f set := by
  rw [List.nodup_map_iff_inj_on distinct]
  simp only [same]
  exact ⟨fun apart a member a' member' => apart a member a' member',
    fun apart a member a' member' => apart member member'⟩

/-- An image stands at one place only if nothing else has it. -/
theorem image_only_at_iff {i : Nat} {a : α} (here : list[i]? = some a) :
    (∀ j, (list.map f)[j]? = some (f a) ↔ j = i) ↔ ∀ a' ∈ list, f a' = f a → a' = a := by
  constructor
  · intro only a' member same
    obtain ⟨j, there⟩ := List.mem_iff_getElem?.mp member
    have atI : j = i := (only j).mp (by rw [List.getElem?_map, there, Option.map_some, same])
    rw [atI, here] at there
    exact (Option.some.inj there).symm
  · intro apart j
    constructor
    · intro found
      rw [List.getElem?_map, Option.map_eq_some_iff] at found
      obtain ⟨a', there, same⟩ := found
      obtain ⟨inside, _⟩ := List.getElem?_eq_some_iff.mp there
      rw [apart a' (List.mem_of_getElem? there) same] at there
      exact (List.getElem?_inj inside distinct).mp (there.trans here.symm)
    · rintro rfl
      rw [List.getElem?_map, here, Option.map_some]

end Injective

/-- The qualified names of records. -/
def namesOf (records : List TypeRecord) : Set QualifiedName :=
  {q | ∃ r ∈ records, r.qualifiedName = .ok q}

theorem namesOf_append (records records' : List TypeRecord) :
    namesOf (records ++ records') = namesOf records ∪ namesOf records' := by
  ext q
  simp only [namesOf, Set.mem_ofPred_eq, Set.mem_union, List.mem_append, or_and_right, exists_or]

namespace TypeRecord

theorem text_of_qualifiedName {r : TypeRecord} {q : QualifiedName} (named : r.qualifiedName = .ok q) :
    q.text = r.name :=
  QualifiedName.text_of_parse (mapError_eq_ok_iff.mp named)

theorem qualifiedName_inj {r r' : TypeRecord} {q q' : QualifiedName} (named : r.qualifiedName = .ok q)
    (named' : r'.qualifiedName = .ok q') (same : q.text = q'.text) : q = q' := by
  rw [text_of_qualifiedName named, text_of_qualifiedName named'] at same
  rw [qualifiedName, same] at named
  exact Except.ok.inj (named.symm.trans named')

end TypeRecord

section Named

variable {records : List TypeRecord} {names : List QualifiedName}
  (named : List.Forall₂ (fun r q => r.qualifiedName = .ok q) records names)
include named

theorem mem_names_iff {q : QualifiedName} : q ∈ names ↔ q ∈ namesOf records := by
  constructor
  · exact exists_of_forall₂_right named
  · rintro ⟨r, member, here⟩
    obtain ⟨q', inNames, here'⟩ := exists_of_forall₂_left named member
    cases here.symm.trans here'
    exact inNames

theorem map_text_names : names.map QualifiedName.text = records.map TypeRecord.name := by
  induction named with
  | nil => rfl
  | cons here _ ih => rw [List.map_cons, List.map_cons, ih, TypeRecord.text_of_qualifiedName here]

theorem nodup_names (distinct : (records.map TypeRecord.name).Nodup) : names.Nodup := by
  rw [← map_text_names named] at distinct
  exact distinct.of_map

end Named

theorem mem_modules_iff {α : Type} {name : α → QualifiedName} {items : List α} {records : List TypeRecord}
    (named : List.Forall₂ (fun r q => r.qualifiedName = .ok q) records (items.map name)) {m : String} :
    m ∈ items.map (fun a => (name a).moduleName) ↔ m ∈ QualifiedName.moduleName '' namesOf records := by
  have modules : items.map (fun a => (name a).moduleName) = (items.map name).map QualifiedName.moduleName := by
    rw [List.map_map]
    rfl
  rw [modules]
  simp only [List.mem_map, Set.mem_image, ← mem_names_iff named]

/-- The units of a generation declare no name twice. -/
structure Generation.DeclaresOnce (g : Generation) (base index : OutputUnit) : Prop where
  consts : ((constsOf base.body).map ConstDefinition.symbol).Nodup
  enumAliases : (declaredNames 0 "import type * as " base.head).Nodup
  importAliases : (declaredNames 0 "import * as " index.head).Nodup
  keys : (declaredNames 1 "" index.body).Nodup
  exports : ∀ m, (exportedNames (g.tree.bodyAt (moduleUnit m))).Nodup

namespace Scope

/-- The names of the enums that a scope emits. -/
def enumNames (s : Scope) : Set QualifiedName :=
  namesOf s.enumTypes

/-- The names of the object types that a scope emits. -/
def shapeNames (s : Scope) : Set QualifiedName :=
  namesOf s.shapeTypes

theorem not_keepsShape_of_keepsEnum {s : Scope} {r : TypeRecord} (kept : s.keepsEnum r = true) :
    s.keepsShape r = false := by
  unfold keepsEnum TypeRecord.scalar? at kept
  unfold keepsShape TypeRecord.object?
  split at kept <;> simp_all

/-- No two enums or objects are emitted under one name. -/
theorem IsOrdered.nodup_emitted {s : Scope} (ordered : s.IsOrdered) :
    ((s.enumTypes ++ s.shapeTypes).map TypeRecord.name).Nodup := by
  have names := ordered.records_order.1.keys_nodup
  have enums : (s.enumTypes.map TypeRecord.name).Nodup := names.sublist (List.filter_sublist.map _)
  have shapes : (s.shapeTypes.map TypeRecord.name).Nodup := names.sublist (List.filter_sublist.map _)
  rw [List.map_append]
  refine List.nodup_append.mpr ⟨enums, shapes, fun name inEnums name' inShapes same => ?_⟩
  obtain ⟨r, isEnum, rfl⟩ := List.mem_map.mp inEnums
  obtain ⟨r', isShape, rfl⟩ := List.mem_map.mp inShapes
  obtain ⟨inOrder, keptEnum⟩ := List.mem_filter.mp isEnum
  obtain ⟨inOrder', keptShape⟩ := List.mem_filter.mp isShape
  rw [← List.inj_on_of_nodup_map names inOrder inOrder' same, not_keepsShape_of_keepsEnum keptEnum] at keptShape
  cases keptShape

section Emitted

variable {s : Scope} {enums : List Enumeration} {objects : List ObjectDefinition}

theorem forall₂_enumNames (listed : s.enumerations = .ok enums) :
    List.Forall₂ (fun r q => r.qualifiedName = .ok q) s.enumTypes (enums.map Enumeration.name) := by
  rw [List.forall₂_map_right_iff]
  refine (mapM_eq_ok_iff.mp listed).imp fun r e described => ?_
  obtain ⟨q, named, rfl⟩ := map_eq_ok_iff.mp described
  exact named

theorem forall₂_shapeNames (defined : s.objectDefinitions = .ok objects) :
    List.Forall₂ (fun r q => r.qualifiedName = .ok q) s.shapeTypes (objects.map ObjectDefinition.name) := by
  rw [List.forall₂_map_right_iff]
  exact (objectDefinitions_eq_ok_iff.mp defined).imp fun r d => And.left

theorem IsOrdered.nodup_shapeNames (ordered : s.IsOrdered) (defined : s.objectDefinitions = .ok objects) :
    (objects.map ObjectDefinition.name).Nodup := by
  have distinct := ordered.nodup_emitted
  rw [List.map_append] at distinct
  exact nodup_names (forall₂_shapeNames defined) (List.nodup_append.mp distinct).2.1

theorem mem_enumModules_iff (listed : s.enumerations = .ok enums) {m : String} :
    m ∈ enumModules enums ↔ m ∈ QualifiedName.moduleName '' s.enumNames := by
  rw [enumModules, mem_addNew, or_iff_right List.not_mem_nil]
  exact mem_modules_iff (forall₂_enumNames listed)

/-- The modules of the index are those of all emitted types. -/
theorem mem_indexModules_iff (listed : s.enumerations = .ok enums) (defined : s.objectDefinitions = .ok objects)
    {m : String} : m ∈ addNew (enumModules enums) (objectModules objects) ↔
      m ∈ QualifiedName.moduleName '' (s.enumNames ∪ s.shapeNames) := by
  rw [mem_addNew, Set.image_union, mem_enumModules_iff listed, objectModules, mem_addNew,
    or_iff_right List.not_mem_nil]
  exact or_congr_right (mem_modules_iff (forall₂_shapeNames defined))

theorem exportsOf_moduleBody (s : Scope) (enums : List Enumeration) (objects : List ObjectDefinition)
    (path : String) :
    exportsOf (s.moduleBody enums objects path) =
      (enums.filter fun e => moduleUnit e.name.moduleName = path).map (fun e => ("enum", e.name.localIdent)) ++
        (objects.filter fun d => moduleUnit d.name.moduleName = path).map fun d =>
          ("const", d.name.localIdent) := by
  rw [moduleBody, exportsOf_append, exportsOf_flatMap exportsOf_enumeration,
    exportsOf_flatMap (exportsOf_definition _)]

/-- The enums and objects that the unit of a module exports. -/
theorem exportedNames_emission (s : Scope) (casts : CastMap) (enums : List Enumeration)
    (objects : List ObjectDefinition) (m : String) :
    exportedNames ((s.emission casts enums objects).tree.bodyAt (moduleUnit m)) =
      ((enums.map Enumeration.name ++ objects.map ObjectDefinition.name).filter fun q =>
        moduleUnit q.moduleName = moduleUnit m).map QualifiedName.localIdent := by
  have maps : exportedNames (if castUnit = moduleUnit m then s.castLines casts else []) = [] := by
    rw [exportedNames_eq, List.filterMap_eq_nil_iff]
    split
    · exact fun e member => by simp [kind_of_mem_castLines member]
    · exact List.forall_mem_nil _
  rw [bodyAt_emission s casts enums objects (moduleUnit_ne_baseUnit m).symm (indexUnit_ne_moduleUnit m).symm,
    exportedNames_eq, exportsOf_append, exportsOf_moduleBody, List.filterMap_append, List.filterMap_append,
    ← exportedNames_eq, maps, List.append_nil]
  simp [List.filter_map, Function.comp_def]

end Emitted

/-- How the names that the units of a generation declare follow from the names of the types
that are emitted. -/
structure DeclaresNames (s : Scope) (g : Generation) (base index : OutputUnit) : Prop where
  foundBase : g.tree.get? baseUnit = some base
  foundIndex : g.tree.get? indexUnit = some index
  returned : returnedMembers base.body = (constsOf base.body).map ConstDefinition.symbol
  consts : ((constsOf base.body).map ConstDefinition.symbol).Nodup ↔ Set.InjOn QualifiedName.symbol s.shapeNames
  /-- A symbol denotes the type that it was written for, and no other, if no other has it. -/
  denotes : ∀ (i : Nat) (r : TypeRecord) (q : QualifiedName), s.shapeTypes[i]? = some r → r.qualifiedName = .ok q →
    ((∀ j : Nat, ((constsOf base.body).map ConstDefinition.symbol)[j]? = some q.symbol ↔ j = i) ↔
      ∀ p ∈ s.shapeNames, p.symbol = q.symbol → p = q)
  enumAliases : (declaredNames 0 "import type * as " base.head).Nodup ↔
    Set.InjOn identOf (QualifiedName.moduleName '' s.enumNames)
  importAliases : (declaredNames 0 "import * as " index.head).Nodup ↔
    Set.InjOn identOf (QualifiedName.moduleName '' (s.enumNames ∪ s.shapeNames))
  keys : (declaredNames 1 "" index.body).Nodup ↔
    Set.InjOn identOf (QualifiedName.moduleName '' (s.enumNames ∪ s.shapeNames))
  exports : ∀ m, (exportedNames (g.tree.bodyAt (moduleUnit m))).Nodup ↔
    Set.InjOn QualifiedName.localIdent
      {q ∈ s.enumNames ∪ s.shapeNames | moduleUnit q.moduleName = moduleUnit m}

theorem IsOrdered.declaresNames {s : Scope} (ordered : s.IsOrdered) (casts : CastMap) {enums : List Enumeration}
    {objects : List ObjectDefinition} (listed : s.enumerations = .ok enums)
    (defined : s.objectDefinitions = .ok objects) :
    ∃ base index, s.DeclaresNames (s.emission casts enums objects) base index := by
  have shapes := forall₂_shapeNames defined
  have types := List.rel_append (forall₂_enumNames listed) shapes
  have symbols : (constsOf (baseBody s.config.library objects)).map ConstDefinition.symbol =
      (objects.map ObjectDefinition.name).map QualifiedName.symbol := by
    rw [constsOf_baseBody, List.map_map, List.map_map]
    rfl
  have shapesOnce := ordered.nodup_shapeNames defined
  have modulesOnce : (enumModules enums).Nodup := nodup_addNew List.nodup_nil _
  have indexOnce : (addNew (enumModules enums) (objectModules objects)).Nodup := nodup_addNew modulesOnce _
  refine ⟨_, _, s.baseUnit_emission casts enums objects, s.indexUnit_emission casts enums objects, ?_, ?_,
    fun i r q here named => ?_, ?_, ?_, ?_, fun m => ?_⟩
  · rw [returnedMembers_baseBody, symbols, List.map_map]
    rfl
  · rw [symbols]
    exact nodup_map_iff_injOn shapesOnce fun _ => mem_names_iff shapes
  · obtain ⟨q', here', named'⟩ := getElem?_of_forall₂ shapes here
    cases named.symm.trans named'
    rw [symbols, image_only_at_iff shapesOnce here']
    simp only [mem_names_iff shapes, shapeNames]
  · rw [nodup_enumAliases_baseHead_iff]
    exact nodup_map_iff_injOn modulesOnce fun _ => mem_enumModules_iff listed
  · rw [nodup_importAliases_indexHead_iff]
    exact nodup_map_iff_injOn indexOnce fun _ => mem_indexModules_iff listed defined
  · rw [keys_indexBody]
    exact nodup_map_iff_injOn indexOnce fun _ => mem_indexModules_iff listed defined
  · rw [exportedNames_emission]
    refine nodup_map_iff_injOn ((nodup_names types ordered.nodup_emitted).filter _) fun q => ?_
    rw [List.mem_filter, mem_names_iff types, namesOf_append, decide_eq_true_iff]
    rfl

/-- If all names are made of letters and digits, nothing is declared twice. -/
theorem DeclaresNames.once {s : Scope} {g : Generation} {base index : OutputUnit}
    (names : s.DeclaresNames g base index)
    (plain : ∀ q ∈ s.enumNames ∪ s.shapeNames, q.IsPlain) : g.DeclaresOnce base index := by
  have modulesInj {emitted : Set QualifiedName} (within : emitted ⊆ s.enumNames ∪ s.shapeNames) :
      Set.InjOn identOf (QualifiedName.moduleName '' emitted) := by
    rintro _ ⟨p, member, rfl⟩ _ ⟨q, member', rfl⟩ same
    exact (plain p (within member)).moduleName_inj (plain q (within member')) same
  refine ⟨names.consts.mpr fun p shape q shape' same => ?_,
    names.enumAliases.mpr (modulesInj Set.subset_union_left),
    names.importAliases.mpr (modulesInj subset_rfl), names.keys.mpr (modulesInj subset_rfl),
    fun m => (names.exports m).mpr ?_⟩
  · have text := (plain p (Or.inr shape)).symbol_inj (plain q (Or.inr shape')) same
    obtain ⟨_, _, named⟩ := shape
    obtain ⟨_, _, named'⟩ := shape'
    exact TypeRecord.qualifiedName_inj named named' text
  · rintro p ⟨emitted, here⟩ q ⟨emitted', there⟩ same
    have modules :=
      moduleUnit_inj (plain p emitted).moduleParts (plain q emitted').moduleParts (here.trans there.symm)
    have locals := (plain p emitted).localName_inj (plain q emitted') same
    cases p
    cases q
    cases modules
    cases locals
    rfl

end Scope

namespace Generation

/-- A name is declared twice just when two emitted types that differ are given the same
identifier in one place, which names of letters and digits never are. -/
theorem declares_names {snapshot : Snapshot} {config : Config} {g : Generation} {s : Scope}
    (generated : snapshot.generate config = .ok g) (made : snapshot.scope config = .ok s) :
    ∃ base index, s.DeclaresNames g base index ∧
      ((∀ q ∈ s.enumNames ∪ s.shapeNames, q.IsPlain) → g.DeclaresOnce base index) := by
  obtain ⟨s', made', emitted⟩ := Snapshot.generate_eq_ok_iff.mp generated
  cases made.symm.trans made'
  obtain ⟨enums, objects, listed, defined, rfl⟩ := Scope.generate_eq_ok_iff.mp emitted
  obtain ⟨base, index, names⟩ :=
    (Scope.of_snapshot made).1.declaresNames (.ofImplicit snapshot.casts) listed defined
  exact ⟨base, index, names, names.once⟩

end Generation

namespace Lookalikes

/-- Two objects and two enums whose names differ by punctuation only. -/
def snapshot : Snapshot where
  types := [⟨⟨"marked"⟩, "a::b::C!", .object ⟨false, [], [], [], []⟩⟩,
    ⟨⟨"lined"⟩, "a::b::C_", .object ⟨false, [], [], [], []⟩⟩,
    ⟨⟨"deep"⟩, "a::b::E", .scalar ⟨false, [], ["x"], none⟩⟩,
    ⟨⟨"flat"⟩, "a_b::E", .scalar ⟨false, [], ["x"], none⟩⟩]
  casts := []

def config : Config where
  root := none

def scope : Scope :=
  ⟨⟨snapshot.types⟩, ⟨[⟨"marked"⟩, ⟨"lined"⟩, ⟨"deep"⟩, ⟨"flat"⟩]⟩, config, none⟩

theorem scope_eq : snapshot.scope config = .ok scope := by
  cbv

def marked : QualifiedName := ⟨"a::b", "C!"⟩

def lined : QualifiedName := ⟨"a::b", "C_"⟩

def deep : QualifiedName := ⟨"a::b", "E"⟩

def flat : QualifiedName := ⟨"a_b", "E"⟩

def enums : List Enumeration :=
  [⟨deep, ["x"]⟩, ⟨flat, ["x"]⟩]

def objects : List ObjectDefinition :=
  [⟨marked, .ofMembers [] []⟩, ⟨lined, .ofMembers [] []⟩]

theorem listed : scope.enumerations = .ok enums := by
  cbv

theorem defined : scope.objectDefinitions = .ok objects := by
  cbv

def generation : Generation :=
  scope.emission (.ofImplicit snapshot.casts) enums objects

theorem generate_eq : snapshot.generate config = .ok generation :=
  Snapshot.generate_eq_ok_iff.mpr ⟨scope, scope_eq, Scope.generate_eq_ok_iff.mpr ⟨_, _, listed, defined, rfl⟩⟩

/-- Each list of names has one twice. -/
theorem declared_twice :
    snapshot.generate config = .ok generation ∧ snapshot.scope config = .ok scope ∧
      ∃ base index, generation.tree.get? baseUnit = some base ∧ generation.tree.get? indexUnit = some index ∧
        ¬((constsOf base.body).map ConstDefinition.symbol).Nodup ∧
        ¬(declaredNames 0 "import type * as " base.head).Nodup ∧
        ¬(declaredNames 0 "import * as " index.head).Nodup ∧ ¬(declaredNames 1 "" index.body).Nodup ∧
        ¬(exportedNames (generation.tree.bodyAt (moduleUnit "a::b"))).Nodup := by
  obtain ⟨base, index, names, _⟩ := Generation.declares_names generate_eq scope_eq
  have shapes : ∀ q ∈ [marked, lined], q ∈ scope.shapeNames :=
    fun q => (mem_names_iff (Scope.forall₂_shapeNames defined)).mp
  have enumerated : ∀ q ∈ [deep, flat], q ∈ scope.enumNames :=
    fun q => (mem_names_iff (Scope.forall₂_enumNames listed)).mp
  obtain ⟨⟨isMarked, isLined⟩, isDeep, isFlat⟩ :
      (marked ∈ scope.shapeNames ∧ lined ∈ scope.shapeNames) ∧ deep ∈ scope.enumNames ∧ flat ∈ scope.enumNames :=
    ⟨⟨shapes _ (by simp), shapes _ (by simp)⟩, enumerated _ (by simp), enumerated _ (by simp)⟩
  have modules : identOf deep.moduleName = identOf flat.moduleName := by decide
  have inIndex {q : QualifiedName} (isEnum : q ∈ scope.enumNames) :
      q.moduleName ∈ QualifiedName.moduleName '' (scope.enumNames ∪ scope.shapeNames) := ⟨q, Or.inl isEnum, rfl⟩
  refine ⟨generate_eq, scope_eq, base, index, names.foundBase, names.foundIndex, fun once => ?_, fun once => ?_,
    fun once => ?_, fun once => ?_, fun once => ?_⟩
  · exact absurd (names.consts.mp once isMarked isLined (by decide)) (by decide)
  · exact absurd (names.enumAliases.mp once ⟨deep, isDeep, rfl⟩ ⟨flat, isFlat, rfl⟩ modules) (by decide)
  · exact absurd (names.importAliases.mp once (inIndex isDeep) (inIndex isFlat) modules) (by decide)
  · exact absurd (names.keys.mp once (inIndex isDeep) (inIndex isFlat) modules) (by decide)
  · have atUnit {q : QualifiedName} (isShape : q ∈ scope.shapeNames) (here : q.moduleName = "a::b") :
        q ∈ scope.enumNames ∪ scope.shapeNames ∧ moduleUnit q.moduleName = moduleUnit "a::b" :=
      ⟨Or.inr isShape, congrArg moduleUnit here⟩
    exact absurd ((names.exports "a::b").mp once (atUnit isMarked rfl) (atUnit isLined rfl) (by decide)) (by decide)

end Lookalikes
end QueryShapes
