import QueryShapes.Proofs.QuotedText

namespace QueryShapes

/-- An ASCII letter or an underscore, and then ASCII letters, ASCII digits and underscores. -/
def IsIdentifier (text : String) : Prop :=
  ∃ first rest, text.toList = first :: rest ∧ (first.isAlpha = true ∨ first = '_') ∧
    ∀ c ∈ rest, c.isAlphanum = true ∨ c = '_'

theorem isIdentChar_iff {c : Char} : isIdentChar c = true ↔ c.isAlphanum = true ∨ c = '_' := by
  rw [isIdentChar, Bool.or_eq_true, beq_iff_eq]

theorem isAlpha_of_isIdentChar {c : Char} (ident : isIdentChar c = true) (noDigit : c.isDigit = false) :
    c.isAlpha = true ∨ c = '_' := by
  rw [isIdentChar_iff, Char.isAlphanum, noDigit, Bool.or_false] at ident
  exact ident

/-- What is put before a text of identifier characters makes an identifier of it. -/
theorem isIdentifier_guardHead {text : List Char} (ident : ∀ c ∈ text, isIdentChar c = true) :
    IsIdentifier (String.ofList (guardHead text)) := by
  unfold IsIdentifier
  rw [String.toList_ofList]
  cases text with
  | nil => exact ⟨'_', [], rfl, Or.inr rfl, List.forall_mem_nil _⟩
  | cons first rest =>
    obtain ⟨identFirst, identRest⟩ := List.forall_mem_cons.mp ident
    rw [guardHead]
    by_cases digit : first.isDigit = true
    · rw [if_pos digit]
      exact ⟨'_', first :: rest, rfl, Or.inr rfl, fun c member => isIdentChar_iff.mp (ident c member)⟩
    · rw [if_neg digit]
      refine ⟨first, rest, rfl, isAlpha_of_isIdentChar identFirst (by simpa using digit), fun c member => ?_⟩
      exact isIdentChar_iff.mp (identRest c member)

theorem isIdentifier_identOf (text : String) : IsIdentifier (identOf text) :=
  isIdentifier_guardHead (collapseRuns_isIdentChar false text.toList)

theorem isIdentChar_of_head {c : Char} (head : c.isAlpha = true ∨ c = '_') : isIdentChar c = true :=
  isIdentChar_iff.mpr (head.imp_left fun alpha => by rw [Char.isAlphanum, alpha, Bool.true_or])

theorem IsIdentifier.isIdentChar {text : String} (identifier : IsIdentifier text) :
    ∀ c ∈ text.toList, isIdentChar c = true := by
  obtain ⟨first, rest, parts, head, tail⟩ := identifier
  rw [parts]
  exact List.forall_mem_cons.mpr ⟨isIdentChar_of_head head, fun c member => isIdentChar_iff.mpr (tail c member)⟩

theorem isDigit_eq_false_of_isAlpha {c : Char} (alpha : c.isAlpha = true) : c.isDigit = false := by
  -- the digits stand in a row, and no letter is among them
  have apart : ∀ code < 58, 48 ≤ code → (Char.ofNat code).isAlpha = false := by decide
  cases digit : c.isDigit with
  | false => rfl
  | true =>
    obtain ⟨lower, upper⟩ := Char.isDigit_iff_toNat.mp digit
    rw [← Char.ofNat_toNat c, apart c.toNat (Nat.lt_succ_of_le upper) lower] at alpha
    cases alpha

/-- Nothing in an identifier is collapsed, and nothing is put before it. -/
theorem IsIdentifier.identOf_eq {text : String} (identifier : IsIdentifier text) : identOf text = text := by
  have ident := identifier.isIdentChar
  obtain ⟨first, rest, parts, head, _⟩ := identifier
  have collapsed : collapseRuns false text.toList = text.toList := by
    simpa [collapseRuns] using collapseRuns_append (by simp [parts]) ident false []
  have noDigit : first.isDigit = false := by
    rcases head with alpha | rfl
    · exact isDigit_eq_false_of_isAlpha alpha
    · rfl
  have guarded : guardHead text.toList = text.toList := by
    rw [parts, guardHead, if_neg (by simp [noDigit])]
  rw [identOf, collapsed, guarded, String.ofList_toList]

/-- Just the identifiers stand for themselves. -/
theorem identOf_eq_self_iff {text : String} : identOf text = text ↔ IsIdentifier text :=
  ⟨fun same => same ▸ isIdentifier_identOf text, IsIdentifier.identOf_eq⟩

instance (text : String) : Decidable (IsIdentifier text) :=
  decidable_of_iff _ identOf_eq_self_iff

theorem identOf_identOf (text : String) : identOf (identOf text) = identOf text :=
  (isIdentifier_identOf text).identOf_eq

theorem IsIdentifier.append {text suffix : String} (identifier : IsIdentifier text)
    (ident : ∀ c ∈ suffix.toList, c.isAlphanum = true ∨ c = '_') : IsIdentifier (text ++ suffix) := by
  obtain ⟨first, rest, parts, head, tail⟩ := identifier
  refine ⟨first, rest ++ suffix.toList, ?_, head, List.forall_mem_append.mpr ⟨tail, ident⟩⟩
  rw [String.toList_append, parts, List.cons_append]

end QueryShapes
