import QueryShapes.Name
import Mathlib.Data.List.Basic

namespace QueryShapes

/-- The parts of a text around its last separator. Separators may overlap. -/
structure IsLastSplit (text left right : List Char) : Prop where
  parts : text = left ++ ':' :: ':' :: right
  last : ∀ left' right', text = left' ++ ':' :: ':' :: right' → left'.length ≤ left.length

theorem IsLastSplit.unique {text left right left' right' : List Char}
    (split : IsLastSplit text left right) (split' : IsLastSplit text left' right') :
    left = left' ∧ right = right' := by
  have length : left.length = left'.length :=
    Nat.le_antisymm (split'.last _ _ split.parts) (split.last _ _ split'.parts)
  obtain ⟨same, rest⟩ := List.append_inj (split.parts.symm.trans split'.parts) length
  simpa [same] using rest

theorem IsLastSplit.cons {text left right : List Char} (split : IsLastSplit text left right) (c : Char) :
    IsLastSplit (c :: text) (c :: left) right where
  parts := by rw [split.parts, List.cons_append]
  last := by
    intro left' right' parts
    cases left' with
    | nil => simp
    | cons d left' =>
      obtain ⟨_, tail⟩ := List.cons.inj parts
      simpa using split.last left' right' tail

/-- What the search for the last separator finds, or that there is none to find. -/
theorem splitLast_outcome (text : List Char) :
    (∃ left right, splitLast text = some (left, right) ∧ IsLastSplit text left right) ∨
      splitLast text = none ∧ ∀ left right, text ≠ left ++ ':' :: ':' :: right := by
  induction text with
  | nil => exact Or.inr ⟨rfl, fun left right => by simp⟩
  | cons c rest ih =>
    rcases ih with ⟨left, right, found, split⟩ | ⟨absent, apart⟩
    · exact Or.inl ⟨c :: left, right, by simp only [splitLast, found], split.cons c⟩
    · by_cases here : ∃ right, c :: rest = ':' :: ':' :: right
      · obtain ⟨right, parts⟩ := here
        obtain ⟨rfl, rfl⟩ := List.cons.inj parts
        refine Or.inl ⟨[], right, by rw [splitLast, absent], parts, ?_⟩
        intro left' right' parts'
        cases left' with
        | nil => exact Nat.le_refl _
        | cons d left' => exact absurd (List.cons.inj parts').2 (apart left' right')
      · refine Or.inr ⟨?_, ?_⟩
        · simp only [splitLast, absent]
          split
          · rename_i right
            exact absurd ⟨right, rfl⟩ here
          · rfl
        · intro left right parts
          cases left with
          | nil => exact here ⟨right, parts⟩
          | cons d left => exact apart left right (List.cons.inj parts).2

theorem splitLast_eq_some_iff {text left right : List Char} :
    splitLast text = some (left, right) ↔ IsLastSplit text left right := by
  rcases splitLast_outcome text with ⟨left', right', found, split⟩ | ⟨absent, apart⟩
  · rw [found]
    constructor
    · intro same
      cases same
      exact split
    · intro split'
      obtain ⟨rfl, rfl⟩ := split.unique split'
      rfl
  · rw [absent]
    constructor
    · intro impossible
      cases impossible
    · intro split
      exact absurd split.parts (apart left right)

/-- A separator is the last one when none begins behind its first colon. -/
theorem isLastSplit_iff {text left right : List Char} :
    IsLastSplit text left right ↔ text = left ++ ':' :: ':' :: right ∧ ¬[':', ':'] <:+: ':' :: right := by
  constructor
  · intro split
    refine ⟨split.parts, ?_⟩
    rintro ⟨before, after, later⟩
    have further : text = (left ++ ':' :: before) ++ ':' :: ':' :: after := by
      rw [split.parts, ← later]
      simp
    have bound := split.last _ _ further
    simp only [List.length_append, List.length_cons] at bound
    omega
  · rintro ⟨parts, absent⟩
    refine ⟨parts, fun left' right' parts' => ?_⟩
    rcases List.append_eq_append_iff.mp (parts.symm.trans parts') with ⟨between, rfl, later⟩ | ⟨between, rfl, _⟩
    · cases between with
      | nil => simp
      | cons c between =>
        obtain ⟨_, later⟩ := List.cons.inj later
        exact absurd ⟨between, right', by simpa using later.symm⟩ absent
    · simp

/-- Behind a colon a separator begins at once or stands further on. -/
theorem separator_infix_cons_iff {text : List Char} :
    [':', ':'] <:+: ':' :: text ↔ text.head? = some ':' ∨ [':', ':'] <:+: text := by
  rw [List.infix_cons_iff, List.cons_prefix_cons]
  cases text with
  | nil => simp
  | cons c text => simp [@eq_comm _ ':' c]

theorem separator_infix_iff {text : List Char} :
    [':', ':'] <:+: text ↔ ∃ left right, text = left ++ ':' :: ':' :: right := by
  constructor
  · rintro ⟨left, right, parts⟩
    exact ⟨left, right, by simpa using parts.symm⟩
  · rintro ⟨left, right, rfl⟩
    exact ⟨left, right, by simp⟩

/-- A text splits on its last separator into two parts that are not empty. -/
def IsQualified (text : String) : Prop :=
  ∃ left right, IsLastSplit text.toList left right ∧ left ≠ [] ∧ right ≠ []

theorem not_isQualified_iff {text : String} :
    ¬IsQualified text ↔
      ¬[':', ':'] <:+: text.toList ∨
        ∃ left right, IsLastSplit text.toList left right ∧ (left = [] ∨ right = []) := by
  rw [separator_infix_iff]
  rcases splitLast_outcome text.toList with ⟨left, right, _, split⟩ | ⟨_, apart⟩
  · constructor
    · intro unqualified
      refine Or.inr ⟨left, right, split, ?_⟩
      by_contra full
      exact unqualified ⟨left, right, split, not_or.mp full⟩
    · rintro (absent | ⟨left', right', split', empty⟩)
      · exact absurd ⟨left, right, split.parts⟩ absent
      · rintro ⟨left'', right'', split'', leftFull, rightFull⟩
        obtain ⟨rfl, rfl⟩ := split'.unique split''
        exact empty.elim leftFull rightFull
  · refine iff_of_true ?_ (Or.inl ?_)
    · rintro ⟨left, right, split, _⟩
      exact apart left right split.parts
    · rintro ⟨left, right, parts⟩
      exact apart left right parts

namespace QualifiedName

theorem parse_eq_ok_iff {text : String} {q : QualifiedName} :
    parse text = .ok q ↔
      IsLastSplit text.toList q.moduleName.toList q.localName.toList ∧
        q.moduleName.toList ≠ [] ∧ q.localName.toList ≠ [] := by
  unfold parse
  split
  · rename_i left right found
    have split := splitLast_eq_some_iff.mp found
    constructor
    · intro parsed
      split at parsed
      · cases parsed
      · rename_i full
        cases parsed
        simpa [not_or] using And.intro split full
    · rintro ⟨split', moduleFull, localFull⟩
      obtain ⟨rfl, rfl⟩ := split.unique split'
      rw [if_neg (by simp [moduleFull, localFull])]
      simp
  · rename_i absent
    constructor
    · intro impossible
      cases impossible
    · rintro ⟨split, _⟩
      rw [splitLast_eq_some_iff.mpr split] at absent
      cases absent

/-- The parts of a name make up the name. -/
theorem text_of_parse {text : String} {q : QualifiedName} (parsed : parse text = .ok q) : q.text = text := by
  rw [← String.toList_inj, (parse_eq_ok_iff.mp parsed).1.parts]
  simp [QualifiedName.text, String.toList_append]

theorem isQualified_of_parse {text : String} {q : QualifiedName} (parsed : parse text = .ok q) :
    IsQualified text :=
  ⟨_, _, parse_eq_ok_iff.mp parsed⟩

theorem parse_of_isQualified {text : String} (qualified : IsQualified text) : ∃ q, parse text = .ok q := by
  obtain ⟨left, right, split, full⟩ := qualified
  exact ⟨⟨String.ofList left, String.ofList right⟩, parse_eq_ok_iff.mpr (by simpa using ⟨split, full⟩)⟩

theorem parse_error {text : String} {e : InvalidName} (failed : parse text = .error e) :
    e = ⟨text⟩ ∧ ¬IsQualified text := by
  refine ⟨?_, ?_⟩
  · unfold parse at failed
    split at failed
    · split at failed
      · exact (Except.error.inj failed).symm
      · cases failed
    · exact (Except.error.inj failed).symm
  · intro qualified
    obtain ⟨q, parsed⟩ := parse_of_isQualified qualified
    rw [failed] at parsed
    cases parsed

theorem parse_eq_error_iff {text : String} {e : InvalidName} :
    parse text = .error e ↔ e = ⟨text⟩ ∧ ¬IsQualified text := by
  refine ⟨parse_error, ?_⟩
  rintro ⟨rfl, unqualified⟩
  cases parsed : parse text with
  | ok q => exact absurd (isQualified_of_parse parsed) unqualified
  | error e => rw [(parse_error parsed).1]

/-- A name that is found again in its own text. The local part holds no separator, and its first
character completes none with the colon before it. -/
structure IsSeparated (q : QualifiedName) : Prop where
  moduleFull : q.moduleName ≠ ""
  localFull : q.localName ≠ ""
  single : ¬[':', ':'] <:+: q.localName.toList
  apart : q.localName.toList.head? ≠ some ':'

theorem isSeparated_iff {q : QualifiedName} :
    q.IsSeparated ↔
      q.moduleName.toList ≠ [] ∧ q.localName.toList ≠ [] ∧ ¬[':', ':'] <:+: ':' :: q.localName.toList := by
  rw [separator_infix_cons_iff, not_or]
  constructor
  · rintro ⟨moduleFull, localFull, single, apart⟩
    exact ⟨by simpa using moduleFull, by simpa using localFull, apart, single⟩
  · rintro ⟨moduleFull, localFull, apart, single⟩
    exact ⟨by simpa using moduleFull, by simpa using localFull, single, apart⟩

theorem parse_eq_ok_iff_isSeparated {text : String} {q : QualifiedName} :
    parse text = .ok q ↔ q.text = text ∧ q.IsSeparated := by
  rw [parse_eq_ok_iff, isLastSplit_iff, isSeparated_iff, ← String.toList_inj]
  have parts : q.text.toList = q.moduleName.toList ++ ':' :: ':' :: q.localName.toList := by
    simp [QualifiedName.text]
  rw [parts, eq_comm]
  tauto

/-- A name that is read has the text it is read from, and a text made of two parts is read as these
just when its last separator is the one between them. A text is no name when it has no separator or
nothing stands on one side of the last one. -/
theorem parse_inverts_text :
    (∀ n q, parse n = .ok q ↔ q.text = n ∧ q.IsSeparated) ∧
      (∀ m l, parse (m ++ "::" ++ l) = .ok ⟨m, l⟩ ↔
        m ≠ "" ∧ l ≠ "" ∧ ¬[':', ':'] <:+: l.toList ∧ l.toList.head? ≠ some ':') ∧
        ∀ n e, parse n = .error e ↔
          e = ⟨n⟩ ∧ (¬[':', ':'] <:+: n.toList ∨
            ∃ left right, IsLastSplit n.toList left right ∧ (left = [] ∨ right = [])) := by
  refine ⟨fun n q => parse_eq_ok_iff_isSeparated, fun m l => ?_, fun n e => ?_⟩
  · rw [parse_eq_ok_iff_isSeparated]
    constructor
    · rintro ⟨_, moduleFull, localFull, single, apart⟩
      exact ⟨moduleFull, localFull, single, apart⟩
    · rintro ⟨moduleFull, localFull, single, apart⟩
      exact ⟨rfl, moduleFull, localFull, single, apart⟩
  · rw [parse_eq_error_iff, not_isQualified_iff]

/-- Of separators that overlap the last one counts. -/
example : parse "a:::b" = .ok ⟨"a:", "b"⟩ := by
  cbv

end QualifiedName
end QueryShapes
