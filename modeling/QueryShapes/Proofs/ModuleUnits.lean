import QueryShapes.Proofs.CastMapText
import QueryShapes.Proofs.DeclaredBlocks
import QueryShapes.Proofs.MemberKeys
import QueryShapes.Proofs.MemberNames
import QueryShapes.Proofs.ResolvedImports

namespace QueryShapes

/-- The text of the literal from which a line imports the given names. -/
def Line.importSource? (names : String) : Line → Option String
  | .text 0 content =>
    let lead := "import " ++ names ++ " from \""
    if lead.toList.isPrefixOf content.toList then
      match readLiteral (content.toList.drop lead.length) with
      | some (source, [';']) => some (String.ofList source)
      | _ => none
    else none
  | _ => none

/-- The member that a line of an enum declares, and its value. -/
def enumValue? (content : String) : Option (String × String) :=
  match sourceTokens content.toList with
  | [.word member, .mark '=', .literal value, .mark ','] => some (member, value)
  | _ => none

/-- The members of an enum that a block declares, with their values. -/
def enumEntries (block : List Line) : List (String × String) :=
  (contentsAt 1 block).filterMap enumValue?

/-- The shapes of the base object whose fields the block of an object spreads. -/
def spreadShapes (block : List Line) : List String :=
  (contentsAt 1 block).filterMap (between "...base." ",")

/-- The shapes of the base object that the block of an object makes queries of. -/
def queriedShapes (lib : ClientLibrary) (block : List Line) : List String :=
  (contentsAt 2 block).filterMap (between (lib.space ++ ".shape(base.") ", spec),")

/-- The lines of a body from the first that exports a type on. -/
def typeLines (lines : List Line) : List Line :=
  lines.dropWhile fun line => line.exports?.map Prod.fst ≠ some "type"

def TypeDeclaration.name : TypeDeclaration → String
  | union name _ => name
  | map name _ _ => name

/-- The types that both cast maps declare. -/
def Scope.castDeclarations (s : Scope) (casts : CastMap) : List TypeDeclaration :=
  (s.scalarMatrix casts).declarations "getSharedParentScalar" ++ s.objectMatrix.declarations "getSharedParentObject"

section Imports

theorem importSource?_of_readLiteral {names content source : String} {literal : List Char}
    (spelled : content.toList = ("import " ++ names ++ " from \"").toList ++ literal)
    (read : readLiteral literal = some (source.toList, [';'])) :
    (Line.of content).importSource? names = some source := by
  rw [Line.of, Line.importSource?, spelled, if_pos (List.isPrefixOf_iff_prefix.mpr (List.prefix_append ..)),
    ← String.length_toList, List.drop_left, read]
  exact congrArg some String.ofList_toList

theorem importSource?_importLine (lib : ClientLibrary) :
    (Line.of lib.importLine).importSource? ("\x7b" ++ lib.space ++ "\x7d") = some lib.moduleName := by
  refine importSource?_of_readLiteral ?_ (readLiteral_escaped lib.moduleName.toList [';'])
  delta ClientLibrary.importLine
  simp [quoted_toList]

theorem importSource?_baseImport (m : String) :
    (baseImport m).importSource? "base" = some (pathToRoot m ++ "__base__") := by
  refine importSource?_of_readLiteral ?_ (readLiteral_plain (isPlainSource_pathToBase m) [';'])
  simp

end Imports

section Blocks

theorem enumValue?_of_isWord {member : String} (isWord : IsWord member) (value : String) :
    enumValue? (member ++ " = " ++ quoted value ++ ",") = some (member, value) := by
  simp [enumValue?, sourceTokens_word isWord, sourceTokens_quoted, sourceTokens, isBlank, isIdentChar]

theorem contentsAt_dropLast_block (opens closes : String) (inner : List Line) (depth : Nat) :
    contentsAt (depth + 1) ([Line.of opens] ++ nested inner ++ [Line.of closes, Line.blank]).dropLast =
      contentsAt depth inner := by
  rw [List.dropLast_append_of_ne_nil (List.cons_ne_nil _ _)]
  simp

theorem enumEntries_enumeration (e : Enumeration) :
    enumEntries e.lines.dropLast = (memberNames e.values).zip e.values := by
  rw [enumEntries, Enumeration.lines, contentsAt_dropLast_block, contentsAt, List.filterMap_filterMap,
    List.filterMap_map]
  refine (List.filterMap_congr fun entry member => ?_).trans List.filterMap_some
  have identifier := isIdentifier_of_mem_memberNames (List.of_mem_zip member).1
  exact enumValue?_of_isWord (isWord_of_identOf identifier.identOf_eq) entry.2

section Definitions

variable (lib : ClientLibrary) (d : ObjectDefinition)

theorem spreadShapes_definition : spreadShapes (d.exportLines lib).dropLast = [d.symbol] := by
  have spread : between "...base." "," ("..." ++ ("base." ++ d.symbol) ++ ",") = some d.symbol := by
    have spelled : "..." ++ ("base." ++ d.symbol) ++ "," = "...base." ++ d.symbol ++ "," := by
      simp [← String.toList_inj]
    rw [spelled, between_append]
  have shape (text : String) : between "...base." "," ("shape: <Spec extends " ++ text ++ ">(") = none := by
    simp [between]
  have result (text : String) : between "...base." "," ("): " ++ text ++ " =>") = none := by
    simp [between]
  rw [spreadShapes, ObjectDefinition.exportLines, contentsAt_dropLast_block]
  simp [spread, shape, result]

theorem queriedShapes_definition : queriedShapes lib (d.exportLines lib).dropLast = [d.symbol] := by
  have call : between (lib.space ++ ".shape(base.") ", spec)," (lib.shapeCall ("base." ++ d.symbol) "spec" ++ ",") =
      some d.symbol := by
    have spelled : lib.shapeCall ("base." ++ d.symbol) "spec" ++ "," =
        lib.space ++ ".shape(base." ++ d.symbol ++ ", spec)," := by
      simp [ClientLibrary.shapeCall, ← String.toList_inj]
    rw [spelled, between_append]
  have parameter : between (lib.space ++ ".shape(base.") ", spec)," "spec: Spec" = none := by
    refine if_neg fun both => ?_
    have short := (List.isPrefixOf_iff_prefix.mp (Bool.and_eq_true_iff.mp both).1).length_le
    simp at short
  rw [queriedShapes, ObjectDefinition.exportLines, contentsAt_dropLast_block]
  simp [call, parameter]

end Definitions

end Blocks

section Types

theorem typeLines_append {lines : List Line} (apart : ∀ e ∈ exportsOf lines, e.1 ≠ "type") (rest : List Line) :
    typeLines (lines ++ rest) = typeLines rest := by
  refine List.dropWhile_append_of_pos fun line member => decide_eq_true fun isType => ?_
  obtain ⟨e, found, kind⟩ := Option.map_eq_some_iff.mp isType
  exact apart e (List.mem_filterMap.mpr ⟨line, member, found⟩) kind

/-- The first line of a matrix exports a type. -/
theorem typeLines_matrix (m : CastMatrix) {mapName : String} (isWord : IsWord mapName) (rest : List Line) :
    typeLines (m.lines mapName ++ rest) = m.lines mapName ++ rest := by
  have spelled : "export " ++ "type" ++ " " = "export type " := by decide
  have isType : IsWord "type" := by decide
  have opens {word trail : String} (isWord : IsWord word) (ends : EndsWord trail.toList) (lines : List Line) :
      typeLines (.of ("export type " ++ word ++ trail) :: lines) = .of ("export type " ++ word ++ trail) :: lines :=
    List.dropWhile_cons_of_neg (by simp [exports?_of spelled isType isWord ends])
  rw [CastMatrix.lines, CastMatrix.headLines]
  split
  · exact opens (isWord.append (by decide)) (show EndsWord " =".toList by simp [isIdentChar]) _
  · exact opens isWord (show EndsWord "<A, B> =".toList by simp [isIdentChar]) _

theorem exportsOf_matrix_eq (m : CastMatrix) {mapName : String} (isWord : IsWord mapName) :
    exportsOf (m.lines mapName) = (m.declarations mapName).map fun t => ("type", t.name) := by
  rw [exportsOf_matrix m isWord, CastMatrix.declarations]
  split <;> rfl

variable (s : Scope) (casts : CastMap)

theorem spells_castLines :
    Spells (s.castLines casts) ((s.castDeclarations casts).flatMap TypeDeclaration.tokens) := by
  have scalars := (s.scalarMatrix casts).spells_lines (show identOf "getSharedParentScalar" = _ by decide)
  have objects := s.objectMatrix.spells_lines (show identOf "getSharedParentObject" = _ by decide)
  rw [Scope.castDeclarations, List.flatMap_append, Scope.castLines, List.append_assoc]
  exact scalars.append (.blank objects)

theorem exportsOf_castLines_eq :
    exportsOf (s.castLines casts) = (s.castDeclarations casts).map fun t => ("type", t.name) := by
  rw [exportsOf_castLines, exportsOf_matrix_eq _ (by decide), exportsOf_matrix_eq _ (by decide), ← List.map_append]
  rfl

theorem typeLines_castLines : typeLines (s.castLines casts) = s.castLines casts := by
  rw [Scope.castLines, List.append_assoc]
  exact typeLines_matrix _ (by decide) _

/-- From the first type on, a body with cast maps at its end declares what they declare. -/
theorem declaredTypes_typeLines {lines : List Line} (apart : ∀ e ∈ exportsOf lines, e.1 ≠ "type") (path : String) :
    declaredTypes (renderLines (typeLines (lines ++ if castUnit = path then s.castLines casts else []))) =
      some (if castUnit = path then s.castDeclarations casts else []) := by
  rw [typeLines_append apart]
  split
  · rw [typeLines_castLines]
    exact declaredTypes_of_sourceTokens (spells_castLines s casts).sourceTokens_renderLines
  · exact declaredTypes_of_sourceTokens Spells.nil.sourceTokens_renderLines

end Types

end QueryShapes
