import QueryShapes.Proofs.DeclaredNames

namespace QueryShapes

namespace Line

/-- A line that leaves a block open which begins at a depth. -/
def isBelow (depth : Nat) : Line → Bool
  | .blank => true
  | .text here _ => depth < here

theorem isBelow_zero_nest (line : Line) : line.nest.isBelow 0 = true := by
  cases line with
  | blank => rfl
  | text here content => exact decide_eq_true (Nat.succ_pos here)

theorem isBelow_succ_nest (depth : Nat) (line : Line) : line.nest.isBelow (depth + 1) = line.isBelow depth := by
  cases line with
  | blank => rfl
  | text here content => simp only [nest, isBelow, Nat.add_lt_add_iff_right]

theorem declared?_of_isBelow {depth : Nat} {line : Line} (below : line.isBelow depth = true) (lead : String) :
    line.declared? depth lead = none := by
  cases line with
  | blank => rfl
  | text here content => exact if_neg (Nat.ne_of_gt (of_decide_eq_true below))

end Line

/-- The blocks of a body by the names that they declare. Each ends with the first line that is not
below the one that opens it. -/
def blocksOf (depth : Nat) (lead : String) : List Line → List (String × List Line)
  | [] => []
  | line :: rest =>
    match line.declared? depth lead with
    | some name =>
      (name, line :: (rest.takeWhile (Line.isBelow depth) ++ (rest.dropWhile (Line.isBelow depth)).take 1)) ::
        blocksOf depth lead rest
    | none => blocksOf depth lead rest

/-- Lines that are one block, with a blank line after it. -/
inductive IsBlock (depth : Nat) (lead name : String) : List Line → Prop
  | of {opens closes : Line} {inner : List Line} (declares : opens.declared? depth lead = some name)
      (below : ∀ line ∈ inner, line.isBelow depth = true) (ends : closes.isBelow depth = false)
      (silent : closes.declared? depth lead = none) :
      IsBlock depth lead name ([opens] ++ inner ++ [closes, .blank])

section Reading

variable {depth : Nat} {lead : String}

theorem blocksOf_append {lines : List Line} (silent : declaredNames depth lead lines = []) (rest : List Line) :
    blocksOf depth lead (lines ++ rest) = blocksOf depth lead rest := by
  induction lines with
  | nil => rfl
  | cons line lines ih =>
    rw [declaredNames, List.filterMap_eq_nil_iff, List.forall_mem_cons, ← List.filterMap_eq_nil_iff] at silent
    rw [List.cons_append, blocksOf, silent.1]
    exact ih silent.2

theorem blocksOf_eq_nil {lines : List Line} (silent : declaredNames depth lead lines = []) :
    blocksOf depth lead lines = [] := by
  have read := blocksOf_append silent []
  rwa [List.append_nil] at read

theorem IsBlock.blocksOf_eq_cons {name : String} {lines : List Line} (block : IsBlock depth lead name lines)
    (rest : List Line) :
    blocksOf depth lead (lines ++ rest) = (name, lines.dropLast) :: blocksOf depth lead rest := by
  obtain @⟨opens, closes, inner, declares, below, ends, silent⟩ := block
  have parts : [opens] ++ inner ++ [closes, .blank] ++ rest = opens :: (inner ++ closes :: .blank :: rest) := by
    simp only [List.cons_append, List.nil_append, List.append_assoc]
  have text : ([opens] ++ inner ++ [closes, .blank]).dropLast = opens :: (inner ++ [closes]) := by
    rw [List.dropLast_append_of_ne_nil (List.cons_ne_nil _ _), List.append_assoc]
    rfl
  have unread : declaredNames depth lead (inner ++ [closes, .blank]) = [] := by
    refine List.filterMap_eq_nil_iff.mpr (List.forall_mem_append.mpr ⟨fun line member => ?_, ?_⟩)
    · exact Line.declared?_of_isBelow (below line member) lead
    · exact List.forall_mem_cons.mpr ⟨silent, List.forall_mem_singleton.mpr rfl⟩
  have remaining := blocksOf_append unread rest
  rw [List.append_assoc] at remaining
  rw [parts, text, blocksOf, declares]
  simp only
  rw [List.takeWhile_append_of_pos below, List.dropWhile_append_of_pos below,
    List.takeWhile_cons_of_neg (by simp [ends]), List.dropWhile_cons_of_neg (by simp [ends]), List.append_nil]
  exact congrArg _ remaining

theorem blocksOf_flatMap {α : Type} {f : α → List Line} {name : α → String}
    (each : ∀ a, IsBlock depth lead (name a) (f a)) (items : List α) (rest : List Line) :
    blocksOf depth lead (items.flatMap f ++ rest) =
      items.map (fun a => (name a, (f a).dropLast)) ++ blocksOf depth lead rest := by
  induction items with
  | nil => rfl
  | cons a items ih =>
    rw [List.flatMap_cons, List.append_assoc, (each a).blocksOf_eq_cons, ih]
    rfl

end Reading

section Blocks

theorem isBelow_zero_nested (lines : List Line) : ∀ line ∈ nested lines, line.isBelow 0 = true :=
  List.forall_mem_map.mpr fun line _ => line.isBelow_zero_nest

theorem isBelow_one_nested (lines : List Line) : ∀ line ∈ nested (nested lines), line.isBelow 1 = true :=
  List.forall_mem_map.mpr fun line member =>
    (line.isBelow_succ_nest 0).trans (isBelow_zero_nested lines line member)

theorem declared?_text {depth : Nat} {lead word rest : String} (isWord : IsWord word)
    (ends : EndsWord rest.toList) :
    (Line.text depth (lead ++ word ++ rest)).declared? depth lead = some word := by
  rw [Line.declared?, if_pos rfl, wordAfter_append lead isWord ends]

theorem Enumeration.isBlock_lines (e : Enumeration) : IsBlock 0 "export enum " e.name.localIdent e.lines := by
  have ends : EndsWord " \x7b".toList := by simp [isIdentChar]
  exact .of (declared?_text (isWord_identOf _) ends) (isBelow_zero_nested _) rfl (by decide)

theorem ObjectDefinition.isBlock_exportLines (lib : ClientLibrary) (d : ObjectDefinition) :
    IsBlock 0 "export const " d.name.localIdent (d.exportLines lib) := by
  have ends : EndsWord " = \x7b".toList := by simp [isIdentChar]
  exact .of (declared?_text (isWord_identOf _) ends) (isBelow_zero_nested _) rfl (by decide)

/-- The statement that defines a composite stands one level deep. -/
theorem Composite.isBlock_lines (lib : ClientLibrary) {symbol : String} (isWord : IsWord symbol) (c : Composite) :
    IsBlock 1 "const " symbol (nested (c.lines lib symbol)) := by
  have ends : EndsWord " = \x7b".toList := by simp [isIdentChar]
  rw [lines, nested, List.map_append, List.map_append]
  exact .of (declared?_text isWord ends) (isBelow_one_nested _) rfl (by decide)

theorem blocksOf_baseBody (lib : ClientLibrary) (objects : List ObjectDefinition) :
    blocksOf 1 "const " (baseBody lib objects) =
      objects.map fun d => (d.symbol, (nested (d.composite.lines lib d.symbol)).dropLast) := by
  have opens : declaredNames 1 "const " [.of "const base = (function() \x7b"] = [] := by decide
  have members : declaredNames 1 "const " (nested (nested (objects.map fun d => .of (d.symbol ++ ",")))) = [] := by
    rw [declaredNames_nested, declaredNames_zero_nested]
  have closes : declaredNames 1 "const " (nested [.of "\x7d;"] ++
      [.of "\x7d)();", .blank, .of "export default base;"]) = [] := by decide
  have returns : declaredNames 1 "const " (nested [.of "return \x7b"]) = [] := by decide
  have parts : baseBody lib objects = [.of "const base = (function() \x7b"] ++
      (objects.flatMap (fun d => nested (d.composite.lines lib d.symbol)) ++ (nested [.of "return \x7b"] ++
        (nested (nested (objects.map fun d => .of (d.symbol ++ ","))) ++ (nested [.of "\x7d;"] ++
          [.of "\x7d)();", .blank, .of "export default base;"])))) := by
    simp only [baseBody, nested, List.map_append, List.map_flatMap, List.append_assoc]
  have composites (d : ObjectDefinition) : IsBlock 1 "const " d.symbol (nested (d.composite.lines lib d.symbol)) :=
    d.composite.isBlock_lines lib (isWord_identOf d.name.text)
  rw [parts, blocksOf_append opens, blocksOf_flatMap composites, blocksOf_append returns, blocksOf_append members,
    blocksOf_eq_nil closes, List.append_nil]

end Blocks

namespace Generation

/-- The definitions of the base unit by their symbols. -/
def definitions (g : Generation) : List (String × List Line) :=
  blocksOf 1 "const " (g.tree.bodyAt baseUnit)

/-- The enums that the unit of a module declares. -/
def enumBlocks (g : Generation) (m : String) : List (String × List Line) :=
  blocksOf 0 "export enum " (g.tree.bodyAt (moduleUnit m))

/-- The objects that the unit of a module exports. -/
def exportBlocks (g : Generation) (m : String) : List (String × List Line) :=
  blocksOf 0 "export const " (g.tree.bodyAt (moduleUnit m))

end Generation

namespace Scope

variable (s : Scope) (casts : CastMap) (enums : List Enumeration) (objects : List ObjectDefinition) (m : String)

theorem definitions_emission :
    (s.emission casts enums objects).definitions = objects.map fun d =>
      (d.symbol, (nested (d.composite.lines s.config.library d.symbol)).dropLast) := by
  rw [Generation.definitions, OutputTree.bodyAt, s.baseUnit_emission, Option.getD_some, blocksOf_baseBody]

section Modules

variable {path : String} (notBase : path ≠ baseUnit) (notIndex : path ≠ indexUnit)
include notBase notIndex

theorem enumBlocks_bodyAt :
    blocksOf 0 "export enum " ((s.emission casts enums objects).tree.bodyAt path) =
      (enums.filter fun e => moduleUnit e.name.moduleName = path).map fun e =>
        (e.name.localIdent, e.lines.dropLast) := by
  have apart : declaredNames 0 "export enum " ((objects.filter fun d => moduleUnit d.name.moduleName = path).flatMap
      (·.exportLines s.config.library)) = [] := by
    rw [declaredEnums_eq, exportsOf_flatMap (exportsOf_definition _), List.filterMap_map]
    exact List.filterMap_eq_nil_iff.mpr fun d _ => rfl
  have maps : declaredNames 0 "export enum " (if castUnit = path then s.castLines casts else []) = [] := by
    split
    · exact (declaredNames_castLines s casts).1
    · rfl
  rw [bodyAt_emission s casts enums objects notBase notIndex, moduleBody, List.append_assoc,
    blocksOf_flatMap Enumeration.isBlock_lines, blocksOf_append apart, blocksOf_eq_nil maps, List.append_nil]

theorem exportBlocks_bodyAt :
    blocksOf 0 "export const " ((s.emission casts enums objects).tree.bodyAt path) =
      (objects.filter fun d => moduleUnit d.name.moduleName = path).map fun d =>
        (d.name.localIdent, (d.exportLines s.config.library).dropLast) := by
  have apart : declaredNames 0 "export const " ((enums.filter fun e => moduleUnit e.name.moduleName = path).flatMap
      Enumeration.lines) = [] := by
    rw [declaredConsts_eq, exportsOf_flatMap exportsOf_enumeration, List.filterMap_map]
    exact List.filterMap_eq_nil_iff.mpr fun e _ => rfl
  have maps : declaredNames 0 "export const " (if castUnit = path then s.castLines casts else []) = [] := by
    split
    · exact (declaredNames_castLines s casts).2
    · rfl
  rw [bodyAt_emission s casts enums objects notBase notIndex, moduleBody, List.append_assoc, blocksOf_append apart,
    blocksOf_flatMap (ObjectDefinition.isBlock_exportLines s.config.library), blocksOf_eq_nil maps, List.append_nil]

end Modules

theorem enumBlocks_emission :
    (s.emission casts enums objects).enumBlocks m =
      (enums.filter fun e => moduleUnit e.name.moduleName = moduleUnit m).map fun e =>
        (e.name.localIdent, e.lines.dropLast) :=
  enumBlocks_bodyAt s casts enums objects (moduleUnit_ne_baseUnit m).symm (indexUnit_ne_moduleUnit m).symm

theorem exportBlocks_emission :
    (s.emission casts enums objects).exportBlocks m =
      (objects.filter fun d => moduleUnit d.name.moduleName = moduleUnit m).map fun d =>
        (d.name.localIdent, (d.exportLines s.config.library).dropLast) :=
  exportBlocks_bodyAt s casts enums objects (moduleUnit_ne_baseUnit m).symm (indexUnit_ne_moduleUnit m).symm

end Scope
end QueryShapes
