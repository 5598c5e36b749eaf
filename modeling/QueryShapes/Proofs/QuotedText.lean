import QueryShapes.Document.Literal
import QueryShapes.Text.Quoted

namespace QueryShapes

/-- What a reader sees of a character in a quoted text. -/
def quotedPiece (c : Char) : Piece :=
  if c.toNat < 32 ∧ c ∉ ['\x08', '\x0c', '\n', '\r', '\t'] then .unit c.toNat else .char c

theorem unitOf_hexDigits : ∀ n < 32, unitOf? '0' '0' (hexDigit (n / 16)) (hexDigit (n % 16)) = some n := by
  decide

theorem scanLiteral_plain {c : Char} (quote : c ≠ '"') (slash : c ≠ '\\') (printed : ¬c.toNat < 32)
    (pieces : List Piece) (rest : List Char) :
    scanLiteral pieces (c :: rest) = scanLiteral (.char c :: pieces) rest := by
  rw [scanLiteral]
  · rw [if_neg printed]
  · exact quote
  · exact slash

/-- The characters that are escaped by a letter. -/
def letterEscapes : List (Char × Char) :=
  [('"', '"'), ('\\', '\\'), ('b', '\x08'), ('f', '\x0c'), ('n', '\n'), ('r', '\r'), ('t', '\t')]

/-- How a character is written in a quoted text. -/
inductive IsEscaped (c : Char) : List Char → Prop
  | letter {e} : (e, c) ∈ letterEscapes → IsEscaped c ['\\', e]
  | control : c.toNat < 32 → c ∉ ['\x08', '\x0c', '\n', '\r', '\t'] →
      IsEscaped c ['\\', 'u', '0', '0', hexDigit (c.toNat / 16), hexDigit (c.toNat % 16)]
  | plain : c ≠ '"' → c ≠ '\\' → ¬c.toNat < 32 → IsEscaped c [c]

theorem isEscaped_escapeChar (c : Char) : IsEscaped c (escapeChar c) := by
  by_cases short : c ∈ ['"', '\\', '\x08', '\x0c', '\n', '\r', '\t']
  · simp only [List.mem_cons, List.not_mem_nil, or_false] at short
    rcases short with rfl | rfl | rfl | rfl | rfl | rfl | rfl <;> exact .letter (by decide)
  · simp only [List.mem_cons, List.not_mem_nil, or_false, not_or] at short
    obtain ⟨quote, slash, backspace, feed, newline, ret, tab⟩ := short
    by_cases control : c.toNat < 32
    · have escaped : escapeChar c =
          ['\\', 'u', '0', '0', hexDigit (c.toNat / 16), hexDigit (c.toNat % 16)] := by
        simp [escapeChar, quote, slash, backspace, feed, newline, ret, tab, control]
      rw [escaped]
      exact .control control (by simp [backspace, feed, newline, ret, tab])
    · have escaped : escapeChar c = [c] := by
        simp [escapeChar, quote, slash, backspace, feed, newline, ret, tab, control]
      rw [escaped]
      exact .plain quote slash control

theorem IsEscaped.scanLiteral_append {c : Char} {text : List Char} (escaped : IsEscaped c text)
    (pieces : List Piece) (rest : List Char) :
    scanLiteral pieces (text ++ rest) = scanLiteral (quotedPiece c :: pieces) rest := by
  cases escaped with
  | letter listed =>
    simp only [letterEscapes, List.mem_cons, List.not_mem_nil, or_false, Prod.mk.injEq] at listed
    rcases listed with ⟨rfl, rfl⟩ | ⟨rfl, rfl⟩ | ⟨rfl, rfl⟩ | ⟨rfl, rfl⟩ | ⟨rfl, rfl⟩ | ⟨rfl, rfl⟩ | ⟨rfl, rfl⟩
    all_goals rfl
  | control control other =>
    rw [quotedPiece, if_pos ⟨control, other⟩]
    simp only [List.cons_append, List.nil_append, scanLiteral, unitOf_hexDigits c.toNat control]
  | plain quote slash printed =>
    rw [quotedPiece, if_neg fun control => printed control.1]
    exact scanLiteral_plain quote slash printed pieces rest

theorem scanLiteral_escaped (text : List Char) (pieces : List Piece) (rest : List Char) :
    scanLiteral pieces (text.flatMap escapeChar ++ '"' :: rest) =
      (⟨pieces.reverse ++ text.map quotedPiece, none⟩, rest) := by
  induction text generalizing pieces with
  | nil => simp [scanLiteral]
  | cons c text ih =>
    rw [List.flatMap_cons, List.append_assoc, (isEscaped_escapeChar c).scanLiteral_append, ih]
    simp

theorem not_surrogate_of_control {n : Nat} (control : n < 32) :
    isHighSurrogate n = false ∧ isLowSurrogate n = false := by
  simp only [isHighSurrogate, isLowSurrogate, Bool.and_eq_false_iff, decide_eq_false_iff_not]
  omega

theorem joinPieces_quoted (text done : List Char) :
    joinPieces none done (text.map quotedPiece) = .ok (done.reverse ++ text) := by
  induction text generalizing done with
  | nil => simp [joinPieces]
  | cons c text ih =>
    rw [List.map_cons]
    by_cases control : c.toNat < 32 ∧ c ∉ ['\x08', '\x0c', '\n', '\r', '\t']
    · obtain ⟨notHigh, notLow⟩ := not_surrogate_of_control control.1
      rw [quotedPiece, if_pos control, joinPieces.eq_def]
      simpa [notHigh, notLow, Char.ofNat_toNat] using ih (c :: done)
    · rw [quotedPiece, if_neg control, joinPieces]
      simpa using ih (c :: done)

theorem quoted_toList (text : String) :
    (quoted text).toList = '"' :: (text.toList.flatMap escapeChar ++ ['"']) := by
  simp [quoted]

/-- A quoted text read as a literal gives the text back. -/
theorem text_scanLiteral_quoted (text : String) :
    (scanLiteral [] (quoted text).toList.tail).1.text = .ok text := by
  rw [quoted_toList, List.tail_cons, scanLiteral_escaped]
  simp [Literal.text, joinPieces_quoted, Except.map]

theorem quoted_injective {text text' : String} (same : quoted text = quoted text') : text = text' := by
  have decoded := text_scanLiteral_quoted text
  rw [same, text_scanLiteral_quoted text'] at decoded
  exact (Except.ok.inj decoded).symm

theorem collapseRuns_isIdentChar (inRun : Bool) (text : List Char) :
    ∀ c ∈ collapseRuns inRun text, isIdentChar c = true := by
  fun_induction collapseRuns inRun text with
  | case1 => simp
  | case2 inRun c rest ident ih => exact List.forall_mem_cons.mpr ⟨ident, ih⟩
  | case3 c rest _ ih => exact ih
  | case4 inRun c rest _ _ ih => exact List.forall_mem_cons.mpr ⟨by decide, ih⟩

/-- Identifier characters stay, and end the run before them. -/
theorem collapseRuns_append {part : List Char} (full : part ≠ []) (ident : ∀ c ∈ part, isIdentChar c = true)
    (inRun : Bool) (rest : List Char) : collapseRuns inRun (part ++ rest) = part ++ collapseRuns false rest := by
  induction part generalizing inRun with
  | nil => exact absurd rfl full
  | cons c part ih =>
    obtain ⟨here, ident⟩ := List.forall_mem_cons.mp ident
    rw [List.cons_append, collapseRuns, if_pos here]
    cases part with
    | nil => rfl
    | cons next part => rw [ih (by simp) ident, ← List.cons_append]

theorem identOf_isIdentChar (text : String) : ∀ c ∈ (identOf text).toList, isIdentChar c = true := by
  have collapsed := collapseRuns_isIdentChar false text.toList
  intro c member
  rw [identOf, String.toList_ofList] at member
  unfold guardHead at member
  split at member
  · cases List.mem_singleton.mp member
    decide
  · rename_i head rest parts
    rw [parts] at collapsed
    split at member
    · rcases List.mem_cons.mp member with rfl | member
      · decide
      · exact collapsed c member
    · exact collapsed c member

theorem quoted_ne_of_ident {text name : String} (bare : identOf name = name) : quoted text ≠ name := by
  intro same
  have head : '"' ∈ (identOf name).toList := by
    rw [bare, ← same, quoted_toList]
    exact List.mem_cons_self ..
  exact absurd (identOf_isIdentChar name '"' head) (by decide)

/-- Different names are written as different members. -/
theorem memberKey_inj {name name' : String} (same : memberKey name = memberKey name') : name = name' := by
  unfold memberKey at same
  by_cases bare : identOf name = name <;> by_cases bare' : identOf name' = name'
  · rwa [if_pos bare, if_pos bare'] at same
  · rw [if_pos bare, if_neg bare'] at same
    exact absurd same.symm (quoted_ne_of_ident bare)
  · rw [if_neg bare, if_pos bare'] at same
    exact absurd same (quoted_ne_of_ident bare')
  · rw [if_neg bare, if_neg bare'] at same
    exact quoted_injective same

end QueryShapes
