import QueryShapes.Proofs.Identifiers
import QueryShapes.Proofs.ScriptLiterals
import QueryShapes.Proofs.SourceTokens

namespace QueryShapes

/-- Reads the name of the member at the head of a script's text. An identifier names itself, and
a string literal names the text that it stands for. -/
def readMemberKey : List Char → Option (String × List Char)
  | [] => none
  | c :: rest =>
    if c = '"' then (readLiteral rest).map fun (name, after) => (String.ofList name, after)
    else if c.isAlpha ∨ c = '_' then
      some (String.ofList (c :: rest.takeWhile isIdentChar), rest.dropWhile isIdentChar)
    else none

/-- A string literal that stands for a text, in a document and in a script. -/
def IsLiteralOf (text literal : String) : Prop :=
  ∃ body pieces, literal.toList = '"' :: body ∧ scanLiteral [] body = (⟨pieces, none⟩, []) ∧
    Literal.text ⟨pieces, none⟩ = .ok text ∧ readLiteral body = some (text.toList, [])

/-- How a name is written as a member: as it is when it is an identifier, and otherwise as its literal. -/
inductive SpellsMember (name : String) : String → Prop
  | bare : IsIdentifier name → SpellsMember name name
  | literal : ¬IsIdentifier name → IsLiteralOf name (quoted name) → SpellsMember name (quoted name)

theorem readLiteral_escape {text decoded rest : List Char} (read : readEscape text = some (decoded, rest)) :
    readLiteral ('\\' :: text) = (readLiteral rest).map fun (later, after) => (decoded ++ later, after) := by
  rw [readLiteral, if_neg (by decide), if_neg (by decide), if_pos rfl]
  split
  · rename_i none
    rw [none] at read
    cases read
  · rename_i some
    cases some.symm.trans read
    rfl

theorem readEscape_control {n : Nat} (control : n < 32) (rest : List Char) :
    readEscape ('u' :: '0' :: '0' :: hexDigit (n / 16) :: hexDigit (n % 16) :: rest) =
      some ([Char.ofNat n], rest) := by
  obtain ⟨notHigh, notLow⟩ := not_surrogate_of_control control
  have digits : readUnit ('0' :: '0' :: hexDigit (n / 16) :: hexDigit (n % 16) :: rest) = some (n, rest) := by
    rw [readUnit, unitOf_hexDigits n control, Option.map_some]
  simp [readEscape, readUnits, digits, notHigh, notLow]

/-- A script reads a character of a quoted text as that character. -/
theorem IsEscaped.readLiteral_append {c : Char} {text : List Char} (escaped : IsEscaped c text) (rest : List Char) :
    readLiteral (text ++ rest) = (readLiteral rest).map fun (later, after) => (c :: later, after) := by
  cases escaped with
  | @letter e listed =>
    have read : readEscape (e :: rest) = some ([c], rest) := by
      simp only [letterEscapes, List.mem_cons, List.not_mem_nil, or_false, Prod.mk.injEq] at listed
      rcases listed with ⟨rfl, rfl⟩ | ⟨rfl, rfl⟩ | ⟨rfl, rfl⟩ | ⟨rfl, rfl⟩ | ⟨rfl, rfl⟩ | ⟨rfl, rfl⟩ | ⟨rfl, rfl⟩
      all_goals rfl
    exact readLiteral_escape read
  | control control other =>
    have read := readLiteral_escape (readEscape_control control rest)
    rwa [Char.ofNat_toNat] at read
  | plain quote slash printed =>
    refine QueryShapes.readLiteral_append (List.forall_mem_singleton.mpr ?_) rest
    simp only [List.mem_cons, List.not_mem_nil, or_false, not_or]
    refine ⟨quote, slash, ?_, ?_⟩ <;> (rintro rfl; exact printed (by decide))

theorem readLiteral_escaped (text rest : List Char) :
    readLiteral (text.flatMap escapeChar ++ '"' :: rest) = some (text, rest) := by
  induction text with
  | nil => rw [List.flatMap_nil, List.nil_append, readLiteral, if_pos rfl]
  | cons c text ih =>
    rw [List.flatMap_cons, List.append_assoc, (isEscaped_escapeChar c).readLiteral_append, ih, Option.map_some]

theorem isLiteralOf_quoted (text : String) : IsLiteralOf text (quoted text) := by
  refine ⟨_, text.toList.map quotedPiece, quoted_toList text, scanLiteral_escaped text.toList [] [], ?_,
    readLiteral_escaped text.toList []⟩
  simp [Literal.text, joinPieces_quoted, Except.map]

/-- No literal stands for itself, since it is longer than what it stands for. -/
theorem IsLiteralOf.ne {text literal : String} (stands : IsLiteralOf text literal) : literal ≠ text := by
  rintro rfl
  obtain ⟨body, _, parts, _, _, read⟩ := stands
  obtain ⟨raw, rfl, shape⟩ := readLiteral_shape read
  have atMost : literal.toList.length ≤ raw.length := by
    rcases shape with ⟨same, _⟩ | shorter
    · exact Nat.le_of_eq (congrArg List.length same)
    · exact Nat.le_of_lt shorter
  rw [parts, List.length_cons, List.length_append] at atMost
  omega

section Keys

variable {rest : List Char}

theorem readMemberKey_quoted (text : String) (rest : List Char) :
    readMemberKey ((quoted text).toList ++ rest) = some (text, rest) := by
  have body : text.toList.flatMap escapeChar ++ ['"'] ++ rest =
      text.toList.flatMap escapeChar ++ '"' :: rest := by simp
  rw [quoted_toList, List.cons_append, readMemberKey, if_pos rfl, body, readLiteral_escaped, Option.map_some]
  simp only [String.ofList_toList]

theorem readMemberKey_of_isIdentifier {name : String} (identifier : IsIdentifier name) (ends : EndsWord rest) :
    readMemberKey (name.toList ++ rest) = some (name, rest) := by
  have ident := identifier.isIdentChar
  obtain ⟨first, others, parts, head, _⟩ := identifier
  rw [parts] at ident
  obtain ⟨here, ident⟩ := List.forall_mem_cons.mp ident
  obtain ⟨taken, left⟩ := takeWhile_word ident ends
  rw [parts, List.cons_append, readMemberKey, if_neg (isIdentChar_plain here).2, if_pos head, taken, left, ← parts,
    String.ofList_toList]

theorem memberKey_of_isIdentifier {name : String} (identifier : IsIdentifier name) : memberKey name = name := by
  rw [memberKey, if_pos identifier.identOf_eq]

theorem memberKey_of_not_isIdentifier {name : String} (other : ¬IsIdentifier name) :
    memberKey name = quoted name := by
  rw [memberKey, if_neg (mt identOf_eq_self_iff.mp other)]

/-- The name of a member is read back, whatever follows it. -/
theorem readMemberKey_memberKey (name : String) (ends : EndsWord rest) :
    readMemberKey ((memberKey name).toList ++ rest) = some (name, rest) := by
  by_cases identifier : IsIdentifier name
  · rw [memberKey_of_isIdentifier identifier, readMemberKey_of_isIdentifier identifier ends]
  · rw [memberKey_of_not_isIdentifier identifier, readMemberKey_quoted]

theorem memberKey_eq_self_iff {name : String} : memberKey name = name ↔ IsIdentifier name := by
  refine ⟨fun same => ?_, memberKey_of_isIdentifier⟩
  by_contra other
  rw [memberKey_of_not_isIdentifier other] at same
  exact (isLiteralOf_quoted name).ne same

theorem spellsMember_iff {name key : String} : SpellsMember name key ↔ key = memberKey name := by
  constructor
  · rintro (identifier | ⟨other, _⟩)
    · exact (memberKey_of_isIdentifier identifier).symm
    · exact (memberKey_of_not_isIdentifier other).symm
  · rintro rfl
    by_cases identifier : IsIdentifier name
    · rw [memberKey_of_isIdentifier identifier]
      exact .bare identifier
    · rw [memberKey_of_not_isIdentifier identifier]
      exact .literal identifier (isLiteralOf_quoted name)

theorem readMemberKey_mark {c : Char} (quote : c ≠ '"') (mark : isIdentChar c = false) (rest : List Char) :
    readMemberKey (c :: rest) = none := by
  have head : ¬(c.isAlpha = true ∨ c = '_') := fun head => by simp [isIdentChar_of_head head] at mark
  rw [readMemberKey, if_neg quote, if_neg head]

theorem readMemberKey_shorter {text after : List Char} {name : String}
    (read : readMemberKey text = some (name, after)) : after.length < text.length := by
  unfold readMemberKey at read
  split at read
  · cases read
  · rename_i c rest
    split at read
    · obtain ⟨⟨decoded, _⟩, within, same⟩ := Option.map_eq_some_iff.mp read
      cases same
      obtain ⟨raw, rfl, _⟩ := readLiteral_shape within
      simp only [List.length_cons, List.length_append]
      omega
    · split at read
      · cases read
        exact Nat.lt_succ_of_le (List.dropWhile_sublist isIdentChar).length_le
      · cases read

end Keys
end QueryShapes
