import QueryShapes.Document.Token
import QueryShapes.Proofs.QuotedText
import QueryShapes.Text.Line

namespace QueryShapes

/-- A token of the source text of types. -/
inductive SourceToken
  | word (text : String)
  | literal (text : String)
  | mark (c : Char)
  | bad (f : Fault)
deriving DecidableEq, Repr

def Literal.token (l : Literal) : SourceToken :=
  match l.text with
  | .ok text => .literal text
  | .error f => .bad f

/-- The tokens of a source text. Words are runs of identifier characters, blanks and line
breaks only keep tokens apart, and quoted texts are read with their escapes. -/
def sourceTokens : List Char → List SourceToken
  | [] => []
  | c :: rest =>
    if isBlank c then sourceTokens rest
    else if c = '"' then (scanLiteral [] rest).1.token :: sourceTokens (scanLiteral [] rest).2
    else if isIdentChar c then
      .word (String.ofList (c :: rest.takeWhile isIdentChar)) :: sourceTokens (rest.dropWhile isIdentChar)
    else .mark c :: sourceTokens rest
termination_by text => text.length
decreasing_by
  · simp
  · have := scanLiteral_length [] rest
    simp only [List.length_cons]
    omega
  · have := (List.dropWhile_sublist isIdentChar (l := rest)).length_le
    simp only [List.length_cons]
    omega
  · simp

/-- A text that no word before it runs into. -/
def EndsWord (rest : List Char) : Prop :=
  ∀ c ∈ rest.head?, isIdentChar c = false

@[simp]
theorem endsWord_cons {c : Char} {rest : List Char} : EndsWord (c :: rest) ↔ isIdentChar c = false := by
  simp [EndsWord]

/-- A text made of identifier characters. -/
structure IsWord (text : String) : Prop where
  full : text.toList ≠ []
  ident : ∀ c ∈ text.toList, isIdentChar c = true

instance (text : String) : Decidable (IsWord text) :=
  decidable_of_iff (text.toList.isEmpty = false ∧ text.toList.all isIdentChar = true)
    ⟨fun ⟨full, ident⟩ => ⟨List.isEmpty_eq_false_iff.mp full, List.all_eq_true.mp ident⟩,
      fun word => ⟨List.isEmpty_eq_false_iff.mpr word.full, List.all_eq_true.mpr word.ident⟩⟩

theorem IsWord.append {text text' : String} (word : IsWord text) (word' : IsWord text') :
    IsWord (text ++ text') where
  full := by simp [String.toList_append, word.full]
  ident := by
    intro c member
    rw [String.toList_append] at member
    rcases List.mem_append.mp member with first | second
    · exact word.ident c first
    · exact word'.ident c second

theorem guardHead_ne_nil (text : List Char) : guardHead text ≠ [] := by
  unfold guardHead
  split
  · simp
  · split <;> simp

theorem isWord_identOf (text : String) : IsWord (identOf text) where
  full := by
    rw [identOf, String.toList_ofList]
    exact guardHead_ne_nil _
  ident := identOf_isIdentChar text

theorem isWord_of_identOf {name : String} (bare : identOf name = name) : IsWord name :=
  bare ▸ isWord_identOf name

theorem takeWhile_word {text rest : List Char} (ident : ∀ c ∈ text, isIdentChar c = true) (ends : EndsWord rest) :
    (text ++ rest).takeWhile isIdentChar = text ∧ (text ++ rest).dropWhile isIdentChar = rest := by
  have none : rest.takeWhile isIdentChar = [] ∧ rest.dropWhile isIdentChar = rest := by
    cases rest with
    | nil => exact ⟨rfl, rfl⟩
    | cons c rest =>
      have plain : isIdentChar c = false := ends c (by simp)
      simp [plain]
  rw [List.takeWhile_append_of_pos ident, List.dropWhile_append_of_pos ident]
  simp [none]

theorem isIdentChar_plain {c : Char} (ident : isIdentChar c = true) : isBlank c = false ∧ c ≠ '"' := by
  constructor
  · rw [Bool.eq_false_iff]
    intro blank
    simp only [isBlank, Bool.or_eq_true, beq_iff_eq] at blank
    rcases blank with ((rfl | rfl) | rfl) | rfl
    all_goals exact absurd ident (by decide)
  · rintro rfl
    exact absurd ident (by decide)

theorem sourceTokens_word {text : String} {rest : List Char} (word : IsWord text) (ends : EndsWord rest) :
    sourceTokens (text.toList ++ rest) = .word text :: sourceTokens rest := by
  obtain ⟨full, ident⟩ := word
  obtain ⟨c, tail, parts⟩ := List.exists_cons_of_ne_nil full
  rw [parts] at ident
  obtain ⟨head, inner⟩ := List.forall_mem_cons.mp ident
  obtain ⟨printed, bare⟩ := isIdentChar_plain head
  obtain ⟨taken, left⟩ := takeWhile_word inner ends
  have whole : String.ofList (c :: tail) = text := by rw [← parts, String.ofList_toList]
  rw [parts, List.cons_append, sourceTokens, if_neg (by simp [printed]), if_neg bare, if_pos head, taken, left,
    whole]

theorem sourceTokens_quoted (text : String) (rest : List Char) :
    sourceTokens ((quoted text).toList ++ rest) = .literal text :: sourceTokens rest := by
  have scanned : scanLiteral [] (text.toList.flatMap escapeChar ++ '"' :: rest) =
      (⟨text.toList.map quotedPiece, none⟩, rest) := scanLiteral_escaped text.toList [] rest
  have decoded : Literal.token ⟨text.toList.map quotedPiece, none⟩ = .literal text := by
    simp [Literal.token, Literal.text, joinPieces_quoted, Except.map]
  rw [quoted_toList, List.cons_append, List.append_assoc, List.singleton_append, sourceTokens]
  rw [if_neg (by decide), if_pos rfl, scanned, decoded]

/-- Lines that are read one by one, with no token across a line break. -/
inductive Spells : List Line → List SourceToken → Prop
  | nil : Spells [] []
  | blank {lines tokens} (later : Spells lines tokens) : Spells (.blank :: lines) tokens
  | text {depth content here lines tokens}
      (read : ∀ rest, sourceTokens (content.toList ++ '\n' :: rest) = here ++ sourceTokens rest)
      (later : Spells lines tokens) : Spells (.text depth content :: lines) (here ++ tokens)

namespace Spells

variable {lines lines' : List Line} {tokens tokens' : List SourceToken}

theorem of {content : String}
    (read : ∀ rest, sourceTokens (content.toList ++ '\n' :: rest) = tokens ++ sourceTokens rest) :
    Spells [.of content] tokens := by
  have spelled : Spells [.of content] (tokens ++ []) := text read nil
  rwa [List.append_nil] at spelled

theorem append (first : Spells lines tokens) (second : Spells lines' tokens') :
    Spells (lines ++ lines') (tokens ++ tokens') := by
  induction first with
  | nil => exact second
  | blank later ih => exact blank ih
  | text read later ih =>
    rw [List.append_assoc]
    exact text read ih

theorem flatMap {α : Type} {f : α → List Line} {g : α → List SourceToken} {list : List α}
    (each : ∀ a ∈ list, Spells (f a) (g a)) : Spells (list.flatMap f) (list.flatMap g) := by
  induction list with
  | nil => exact nil
  | cons a list ih =>
    obtain ⟨first, others⟩ := List.forall_mem_cons.mp each
    exact first.append (ih others)

/-- Indentation does not change what is read. -/
theorem nested (spelled : Spells lines tokens) : Spells (nested lines) tokens := by
  induction spelled with
  | nil => exact nil
  | blank later ih => exact blank ih
  | text read later ih => exact text read ih

theorem sourceTokens_indented (depth : Nat) (text : List Char) :
    sourceTokens ((String.join (List.replicate depth Line.indentUnit)).toList ++ text) = sourceTokens text := by
  induction depth with
  | zero => simp
  | succ depth ih => simpa [List.replicate_succ, Line.indentUnit, sourceTokens, isBlank] using ih

theorem sourceTokens_flatMap (spelled : Spells lines tokens) :
    sourceTokens (lines.flatMap fun line => line.render.toList ++ ['\n']) = tokens := by
  induction spelled with
  | nil => simp [sourceTokens]
  | blank later ih => simpa [Line.render, sourceTokens, isBlank] using ih
  | @text depth content here lines tokens read later ih =>
    rw [List.flatMap_cons, Line.render, String.toList_append, List.append_assoc, List.append_assoc,
      sourceTokens_indented, List.singleton_append, read, ih]

theorem toList_renderLines {line : Line} :
    (renderLines (line :: lines)).toList =
      (line :: lines).flatMap fun line => line.render.toList ++ ['\n'] := by
  induction lines generalizing line with
  | nil => simp [renderLines]
  | cons next lines ih =>
    rw [List.flatMap_cons, ← ih]
    simp [renderLines, String.intercalate_cons_cons, String.toList_append]

theorem sourceTokens_renderLines (spelled : Spells lines tokens) :
    sourceTokens (renderLines lines).toList = tokens := by
  cases lines with
  | nil =>
    cases spelled
    simp [renderLines, sourceTokens, isBlank]
  | cons line lines => rw [toList_renderLines, spelled.sourceTokens_flatMap]

end Spells
end QueryShapes
