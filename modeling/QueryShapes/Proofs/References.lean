import QueryShapes.Proofs.SourceTokens
import QueryShapes.Shape.Target

namespace QueryShapes

/-- The member that a word and what follows it name, if they do. -/
def reference? : SourceToken → List SourceToken → Option (String × String)
  | .word owner, .mark c :: .word member :: _ => if c = '.' then some (owner, member) else none
  | _, _ => none

/-- Wherever members of something are named, both names. -/
def references : List SourceToken → List (String × String)
  | [] => []
  | token :: rest => (reference? token rest).toList ++ references rest

theorem reference?_mark {c : Char} (other : c ≠ '.') (token : SourceToken) (tokens : List SourceToken) :
    reference? token (.mark c :: tokens) = none := by
  cases token with
  | word owner =>
    cases tokens with
    | nil => rfl
    | cons next tokens => cases next <;> simp [reference?, other]
  | _ => rfl

theorem reference?_member (owner member : String) (tokens : List SourceToken) :
    reference? (.word owner) (.mark '.' :: .word member :: tokens) = some (owner, member) := by
  simp [reference?]

@[simp]
theorem references_mark (c : Char) (tokens : List SourceToken) :
    references (.mark c :: tokens) = references tokens := by
  simp [references, reference?]

@[simp]
theorem references_literal (text : String) (tokens : List SourceToken) :
    references (.literal text :: tokens) = references tokens := by
  simp [references, reference?]

theorem references_word_mark {word : String} {c : Char} (other : c ≠ '.') (tokens : List SourceToken) :
    references (.word word :: .mark c :: tokens) = references tokens := by
  rw [references, reference?_mark other, references_mark]
  rfl

/-- A text that is empty, or starts with a mark that ends the item before it. -/
def EndsItem (rest : List Char) : Prop :=
  ∀ c ∈ rest.head?, c ∈ [',', '>', ']', '\x7d']

theorem endsItem_nil : EndsItem [] := by
  simp [EndsItem]

theorem endsItem_cons {c : Char} (closing : c ∈ [',', '>', ']', '\x7d']) (rest : List Char) :
    EndsItem (c :: rest) := by
  simpa [EndsItem] using closing

theorem EndsItem.endsWord {rest : List Char} (ends : EndsItem rest) : EndsWord rest := by
  intro c head
  have closing := ends c head
  simp only [List.mem_cons, List.not_mem_nil, or_false] at closing
  rcases closing with rfl | rfl | rfl | rfl <;> decide

theorem EndsItem.reference?_eq_none {rest : List Char} (ends : EndsItem rest) (token : SourceToken) :
    reference? token (sourceTokens rest) = none := by
  cases rest with
  | nil =>
    rw [sourceTokens]
    cases token <;> rfl
  | cons c rest =>
    have closing := ends c rfl
    have mark : sourceTokens (c :: rest) = .mark c :: sourceTokens rest := by
      simp only [List.mem_cons, List.not_mem_nil, or_false] at closing
      rcases closing with rfl | rfl | rfl | rfl <;> simp [sourceTokens, isBlank, isIdentChar]
    have other : c ≠ '.' := by
      rintro rfl
      exact absurd closing (by decide)
    rw [mark]
    exact reference?_mark other token _

theorem sourceTokens_member {owner member : String} {rest : List Char} (word : IsWord owner) (word' : IsWord member)
    (ends : EndsWord rest) :
    sourceTokens ((owner ++ "." ++ member).toList ++ rest) =
      .word owner :: .mark '.' :: .word member :: sourceTokens rest := by
  have parts : (owner ++ "." ++ member).toList ++ rest = owner.toList ++ '.' :: (member.toList ++ rest) := by simp
  have dot : sourceTokens ('.' :: (member.toList ++ rest)) = .mark '.' :: .word member :: sourceTokens rest := by
    rw [← sourceTokens_word word' ends]
    simp [sourceTokens, isBlank, isIdentChar]
  rw [parts, sourceTokens_word word (endsWord_cons.mpr (by decide)), dot]

theorem sourceTokens_typeof (text : List Char) :
    sourceTokens ("typeof ".toList ++ text) = .word "typeof" :: sourceTokens text := by
  simp [sourceTokens, isBlank, isIdentChar]

/-- Items with a comma between them are read one after the other, when the comma itself is passed over. -/
theorem read_intercalate {α β : Type} (read : List Char → List β) {separator : String}
    (comma : separator = "," ∨ separator = ", ") (passes : ∀ tail, read (separator.toList ++ tail) = read tail)
    {text : α → String} {found : α → List β} {items : List α}
    (each : ∀ a ∈ items, ∀ rest, EndsItem rest → read ((text a).toList ++ rest) = found a ++ read rest) :
    ∀ rest, EndsItem rest →
      read ((separator.intercalate (items.map text)).toList ++ rest) = items.flatMap found ++ read rest := by
  induction items with
  | nil =>
    intro rest _
    simp
  | cons a items ih =>
    obtain ⟨first, others⟩ := List.forall_mem_cons.mp each
    cases items with
    | nil => simpa using first
    | cons b items =>
      intro rest ends
      have later := ih others rest ends
      have parts : separator.intercalate ((a :: b :: items).map text) =
          text a ++ separator ++ separator.intercalate ((b :: items).map text) := String.intercalate_cons_cons
      have closes (tail : List Char) : EndsItem (separator.toList ++ tail) := by
        rcases comma with rfl | rfl <;> exact endsItem_cons (by decide) _
      rw [List.flatMap_cons, parts, String.toList_append, String.toList_append, List.append_assoc,
        List.append_assoc, first _ (closes _), passes, later, List.append_assoc]

/-- As an item, wherever it stands, the text names these members. -/
def Names (text : String) (found : List (String × String)) : Prop :=
  ∀ rest, EndsItem rest →
    references (sourceTokens (text.toList ++ rest)) = found ++ references (sourceTokens rest)

namespace Names

variable {text owner member : String} {found : List (String × String)}

theorem of_member (word : IsWord owner) (word' : IsWord member) :
    Names (owner ++ "." ++ member) [(owner, member)] := by
  intro rest ends
  have last := ends.reference?_eq_none (.word member)
  rw [sourceTokens_member word word' ends.endsWord, references, reference?_member, references_mark, references,
    last]
  rfl

/-- Items with a comma between them name what each of them names. -/
theorem intercalate {α : Type} {separator : String} (comma : separator = "," ∨ separator = ", ")
    {text : α → String} {found : α → List (String × String)} {items : List α}
    (each : ∀ a ∈ items, Names (text a) (found a)) :
    Names (separator.intercalate (items.map text)) (items.flatMap found) := by
  refine read_intercalate (fun text => references (sourceTokens text)) comma (fun tail => ?_) each
  rcases comma with rfl | rfl <;> simp [sourceTokens, isBlank, isIdentChar]

theorem bracketed (names : Names text found) : Names ("[" ++ text ++ "]") found := by
  intro rest _
  simpa [sourceTokens, isBlank, isIdentChar] using names (']' :: rest) (endsItem_cons (by decide) rest)

theorem braced (names : Names text found) : Names ("\x7b" ++ text ++ "\x7d") found := by
  intro rest _
  simpa [sourceTokens, isBlank, isIdentChar] using names ('\x7d' :: rest) (endsItem_cons (by decide) rest)

theorem array (names : Names text found) : Names ("Array<" ++ text ++ ">") found := by
  intro rest _
  have inner := names ('>' :: rest) (endsItem_cons (by decide) rest)
  simpa [sourceTokens, isBlank, isIdentChar, references_word_mark] using inner

theorem field (names : Names text found) (key : String) : Names (memberKey key ++ ": " ++ text) found := by
  intro rest ends
  have inner := names rest ends
  unfold memberKey
  split
  · rename_i bare
    have word := isWord_of_identOf bare
    simpa [sourceTokens_word word, sourceTokens, isBlank, isIdentChar, references_word_mark] using inner
  · simpa [sourceTokens_quoted, sourceTokens, isBlank, isIdentChar] using inner

end Names

namespace TypeExpr

mutual

/-- The enums that a type names. -/
def enums : TypeExpr → List QualifiedName
  | primitive _ => []
  | enumeration name => [name]
  | array element => element.enums
  | tuple elements => enumsOfAll elements
  | record fields => enumsOfFields fields

def enumsOfAll : List TypeExpr → List QualifiedName
  | [] => []
  | e :: rest => e.enums ++ enumsOfAll rest

def enumsOfFields : List (String × TypeExpr) → List QualifiedName
  | [] => []
  | (_, e) :: rest => e.enums ++ enumsOfFields rest

end

theorem texts_eq_map (elements : List TypeExpr) : texts elements = elements.map text := by
  induction elements with
  | nil => rfl
  | cons e elements ih => rw [texts, ih, List.map_cons]

theorem fieldTexts_eq_map (fields : List (String × TypeExpr)) :
    fieldTexts fields = fields.map fun field => memberKey field.1 ++ ": " ++ field.2.text := by
  induction fields with
  | nil => rfl
  | cons field fields ih => rw [fieldTexts, ih, List.map_cons]

/-- What holds of a tuple or record may be shown from what holds of all its parts. -/
@[induction_eliminator]
theorem inductionOnParts {P : TypeExpr → Prop} (primitive : ∀ p, P (primitive p))
    (enumeration : ∀ name, P (enumeration name)) (array : ∀ element, P element → P (array element))
    (tuple : ∀ elements, (∀ e ∈ elements, P e) → P (tuple elements))
    (record : ∀ fields, (∀ field ∈ fields, P field.2) → P (record fields)) (e : TypeExpr) : P e :=
  @TypeExpr.rec P (fun elements => ∀ e ∈ elements, P e) (fun fields => ∀ field ∈ fields, P field.2)
    (fun field => P field.2) primitive enumeration array tuple record (List.forall_mem_nil _)
    (fun _ _ here later => List.forall_mem_cons.mpr ⟨here, later⟩) (List.forall_mem_nil _)
    (fun _ _ here later => List.forall_mem_cons.mpr ⟨here, later⟩) (fun _ _ here => here) e

theorem text_enumeration (name : QualifiedName) :
    text (enumeration name) = name.moduleIdent ++ "Types" ++ "." ++ name.localIdent := by
  simp [text, ← String.toList_inj]

end TypeExpr

namespace Target

variable {lead : String}

end Target
end QueryShapes
