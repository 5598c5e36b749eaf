import QueryShapes.ModulePath
import QueryShapes.Proofs.NameParts
import QueryShapes.Proofs.QuotedText

namespace QueryShapes

/-- Parts of a name that are all made of letters and digits. -/
structure IsPlainParts (parts : List (List Char)) : Prop where
  nonempty : parts ≠ []
  full : ∀ part ∈ parts, part ≠ []
  plain : ∀ part ∈ parts, ∀ c ∈ part, c.isAlphanum = true

theorem moduleSegments_ne_nil (text : List Char) : moduleSegments text ≠ [] := by
  fun_cases moduleSegments text <;> simp

/-- Modules that have the same parts are the same. -/
theorem intercalate_moduleSegments (text : List Char) : [':', ':'].intercalate (moduleSegments text) = text := by
  fun_induction moduleSegments text with
  | case1 rest ih =>
    obtain ⟨segment, segments, parts⟩ := List.exists_cons_of_ne_nil (moduleSegments_ne_nil rest)
    rw [parts] at ih ⊢
    rw [List.intercalate_cons_cons, ih]
    rfl
  | case2 c rest _ segment segments parts ih =>
    rw [parts] at ih
    rw [← ih]
    cases segments with
    | nil => simp
    | cons next segments => simp [List.intercalate_cons_cons]
  | case3 c rest _ none ih => exact absurd none (moduleSegments_ne_nil rest)
  | case4 => rfl

/-- Each separator between plain parts becomes one underscore. -/
theorem IsPlainParts.collapseRuns_intercalate {parts : List (List Char)} (plain : IsPlainParts parts)
    (inRun : Bool) :
    collapseRuns inRun ([':', ':'].intercalate parts) = ['_'].intercalate parts := by
  induction parts generalizing inRun with
  | nil => exact absurd rfl plain.nonempty
  | cons part parts ih =>
    obtain ⟨full, fullRest⟩ := List.forall_mem_cons.mp plain.full
    obtain ⟨here, plainRest⟩ := List.forall_mem_cons.mp plain.plain
    have ident : ∀ c ∈ part, isIdentChar c = true := fun c member => by simp [isIdentChar, here c member]
    cases parts with
    | nil => simpa [collapseRuns] using collapseRuns_append full ident inRun []
    | cons next parts =>
      have rest := ih ⟨by simp, fullRest, plainRest⟩ true
      rw [List.intercalate_cons_cons, List.intercalate_cons_cons, List.append_assoc, collapseRuns_append full ident,
        List.append_assoc, ← rest]
      rfl

theorem IsPlainParts.intercalate_inj {sep : Char} (mark : sep.isAlphanum = false) {parts parts' : List (List Char)}
    (plain : IsPlainParts parts) (plain' : IsPlainParts parts')
    (same : [sep].intercalate parts = [sep].intercalate parts') : parts = parts' := by
  have apart {parts : List (List Char)} (plain : IsPlainParts parts) : ∀ part ∈ parts, sep ∉ part := by
    intro part member inPart
    rw [plain.plain part member sep inPart] at mark
    cases mark
  rw [← List.splitOn_intercalate sep (apart plain) plain.nonempty, same,
    List.splitOn_intercalate sep (apart plain') plain'.nonempty]

theorem guardHead_inj {text text' : List Char} (full : text ≠ []) (full' : text' ≠ [])
    (plain : text.head? ≠ some '_') (plain' : text'.head? ≠ some '_') (same : guardHead text = guardHead text') :
    text = text' := by
  obtain ⟨c, rest, rfl⟩ := List.exists_cons_of_ne_nil full
  obtain ⟨c', rest', rfl⟩ := List.exists_cons_of_ne_nil full'
  simp only [List.head?_cons, ne_eq, Option.some_inj] at plain plain'
  simp only [guardHead] at same
  split at same <;> split at same
  · exact (List.cons.inj same).2
  · exact absurd (List.cons.inj same).1.symm plain'
  · exact absurd (List.cons.inj same).1 plain
  · exact same

theorem IsPlainParts.head?_intercalate {parts : List (List Char)} (plain : IsPlainParts parts) (sep : List Char) :
    ∃ c, (sep.intercalate parts).head? = some c ∧ c.isAlphanum = true := by
  obtain ⟨part, parts, rfl⟩ := List.exists_cons_of_ne_nil plain.nonempty
  obtain ⟨c, rest, rfl⟩ := List.exists_cons_of_ne_nil (plain.full part (List.mem_cons_self ..))
  refine ⟨c, ?_, plain.plain _ (List.mem_cons_self ..) c (List.mem_cons_self ..)⟩
  cases parts <;> simp [List.intercalate_cons_cons]

/-- Different names of plain parts have different identifiers. -/
theorem IsPlainParts.identOf_inj {text text' : String} {parts parts' : List (List Char)}
    (plain : IsPlainParts parts) (plain' : IsPlainParts parts')
    (here : text.toList = [':', ':'].intercalate parts) (there : text'.toList = [':', ':'].intercalate parts')
    (same : identOf text = identOf text') : text = text' := by
  have letter {parts : List (List Char)} (plain : IsPlainParts parts) :
      ['_'].intercalate parts ≠ [] ∧ (['_'].intercalate parts).head? ≠ some '_' := by
    obtain ⟨c, head, alphanum⟩ := plain.head?_intercalate ['_']
    refine ⟨fun empty => by simp [empty] at head, fun underscore => ?_⟩
    cases head.symm.trans underscore
    cases alphanum
  have guarded := String.ofList_injective same
  rw [here, there, plain.collapseRuns_intercalate, plain'.collapseRuns_intercalate] at guarded
  have joined := guardHead_inj (letter plain).1 (letter plain').1 (letter plain).2 (letter plain').2 guarded
  rw [← String.toList_inj, here, there, plain.intercalate_inj (by decide) plain' joined]

/-- The unit of a module of plain parts is its own. -/
theorem moduleUnit_inj {m m' : String} (plain : IsPlainParts (moduleSegments m.toList))
    (plain' : IsPlainParts (moduleSegments m'.toList)) (same : moduleUnit m = moduleUnit m') : m = m' := by
  have joined : ['/'].intercalate (moduleSegments m.toList) = ['/'].intercalate (moduleSegments m'.toList) := by
    simpa [moduleUnit, moduleSpecifier, ← String.toList_inj, String.toList_intercalate,
      Function.comp_def] using same
  rw [← String.toList_inj, ← intercalate_moduleSegments m.toList, plain.intercalate_inj (by decide) plain' joined,
    intercalate_moduleSegments]

theorem intercalate_concat (sep last : List Char) {parts : List (List Char)} (nonempty : parts ≠ []) :
    sep.intercalate (parts ++ [last]) = sep.intercalate parts ++ sep ++ last := by
  induction parts with
  | nil => exact absurd rfl nonempty
  | cons part parts ih =>
    cases parts with
    | nil => simp [List.intercalate_cons_cons]
    | cons next parts =>
      rw [List.cons_append, List.cons_append, List.intercalate_cons_cons, ← List.cons_append, ih (by simp),
        List.intercalate_cons_cons]
      simp only [List.append_assoc]

namespace QualifiedName

/-- The local name and the parts of the module's name are made of letters and digits. -/
structure IsPlain (q : QualifiedName) : Prop where
  moduleParts : IsPlainParts (moduleSegments q.moduleName.toList)
  localPart : IsPlainParts [q.localName.toList]

variable {p q : QualifiedName}

theorem IsPlain.allParts (plain : p.IsPlain) :
    IsPlainParts (moduleSegments p.moduleName.toList ++ [p.localName.toList]) where
  nonempty := by simp
  full := List.forall_mem_append.mpr ⟨plain.moduleParts.full, plain.localPart.full⟩
  plain := List.forall_mem_append.mpr ⟨plain.moduleParts.plain, plain.localPart.plain⟩

theorem IsPlain.moduleName_inj (plain : p.IsPlain) (plain' : q.IsPlain) (same : p.moduleIdent = q.moduleIdent) :
    p.moduleName = q.moduleName :=
  plain.moduleParts.identOf_inj plain'.moduleParts (intercalate_moduleSegments _).symm
    (intercalate_moduleSegments _).symm same

theorem IsPlain.localName_inj (plain : p.IsPlain) (plain' : q.IsPlain) (same : p.localIdent = q.localIdent) :
    p.localName = q.localName :=
  plain.localPart.identOf_inj plain'.localPart (List.intercalate_singleton ..).symm
    (List.intercalate_singleton ..).symm same

theorem IsPlain.symbol_inj (plain : p.IsPlain) (plain' : q.IsPlain) (same : p.symbol = q.symbol) :
    p.text = q.text := by
  have parts (q : QualifiedName) :
      q.text.toList = [':', ':'].intercalate (moduleSegments q.moduleName.toList ++ [q.localName.toList]) := by
    rw [intercalate_concat _ _ (moduleSegments_ne_nil _), intercalate_moduleSegments, text, String.toList_append,
      String.toList_append]
    rfl
  exact plain.allParts.identOf_inj plain'.allParts (parts p) (parts q) same

end QualifiedName
end QueryShapes
