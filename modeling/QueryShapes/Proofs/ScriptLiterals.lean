import QueryShapes.Document.Literal
import Mathlib.Data.List.Basic

namespace QueryShapes

def readUnit : List Char → Option (Nat × List Char)
  | a :: b :: c :: d :: rest => (unitOf? a b c d).map (·, rest)
  | _ => none

/-- The character that a four-digit escape names. One that names a high surrogate takes the
escape for the low one with it. -/
def readUnits (text : List Char) : Option (Char × List Char) :=
  match readUnit text with
  | none => none
  | some (n, rest) =>
    if isHighSurrogate n then
      match readUnit (rest.drop 2) with
      | none => none
      | some (m, after) =>
        if rest.take 2 = ['\\', 'u'] ∧ isLowSurrogate m then some (surrogatePair n m, after) else none
    else if isLowSurrogate n then none
    else some (Char.ofNat n, rest)

/-- The character whose digits stand before a closing brace. -/
def readCodePoint (text : List Char) : Option (Char × List Char) :=
  let digits := text.takeWhile fun c => (hexValue? c).isSome
  let n := digits.foldl (fun n c => n * 16 + (hexValue? c).getD 0) 0
  match text.drop digits.length with
  | '\x7d' :: rest => if digits ≠ [] ∧ n.isValidChar then some (Char.ofNat n, rest) else none
  | _ => none

/-- The character that a letter behind a backslash stands for. -/
def letterEscape : Char → Char
  | 'b' => '\x08'
  | 'f' => '\x0c'
  | 'n' => '\n'
  | 'r' => '\r'
  | 't' => '\t'
  | 'v' => '\x0b'
  | c => c

/-- What stands behind a backslash, decoded, and what follows it. A line break there is no part
of the text, and digits other than a single zero are not allowed. -/
def readEscape : List Char → Option (List Char × List Char)
  | '\r' :: '\n' :: rest => some ([], rest)
  | 'u' :: '\x7b' :: rest => (readCodePoint rest).map fun (c, rest) => ([c], rest)
  | 'u' :: rest => (readUnits rest).map fun (c, rest) => ([c], rest)
  | 'x' :: a :: b :: rest =>
    match hexValue? a, hexValue? b with
    | some m, some n => some ([Char.ofNat (m * 16 + n)], rest)
    | _, _ => none
  | c :: rest =>
    if c ∈ ['\n', '\r', '\u2028', '\u2029'] then some ([], rest)
    else if c = 'x' then none
    else if c.isDigit then
      if c = '0' ∧ (rest.takeWhile Char.isDigit) = [] then some (['\x00'], rest) else none
    else some ([letterEscape c], rest)
  | [] => none

theorem readUnit_shape {text rest : List Char} {n : Nat} (read : readUnit text = some (n, rest)) :
    ∃ raw, text = raw ++ rest := by
  unfold readUnit at read
  split at read
  · rename_i a b c d rest'
    obtain ⟨_, _, same⟩ := Option.map_eq_some_iff.mp read
    cases same
    exact ⟨[a, b, c, d], rfl⟩
  · cases read

theorem readUnits_shape {text rest : List Char} {c : Char} (read : readUnits text = some (c, rest)) :
    ∃ raw, text = raw ++ rest := by
  unfold readUnits at read
  split at read
  · cases read
  · rename_i n rest' first
    obtain ⟨raw, rfl⟩ := readUnit_shape first
    split at read
    · split at read
      · cases read
      · rename_i m after second
        obtain ⟨raw', parts⟩ := readUnit_shape second
        split at read
        · obtain ⟨_, rfl⟩ := Prod.mk.inj (Option.some.inj read)
          refine ⟨raw ++ (rest'.take 2 ++ raw'), ?_⟩
          rw [List.append_assoc, List.append_assoc, ← parts, List.take_append_drop]
        · cases read
    · split at read
      · cases read
      · cases read
        exact ⟨raw, rfl⟩

theorem readCodePoint_shape {text rest : List Char} {c : Char} (read : readCodePoint text = some (c, rest)) :
    ∃ raw, text = raw ++ rest := by
  unfold readCodePoint at read
  dsimp only at read
  split at read
  · rename_i rest' closed
    split at read
    · cases read
      refine ⟨text.take (text.takeWhile fun c => (hexValue? c).isSome).length ++ ['\x7d'], ?_⟩
      rw [List.append_assoc, List.singleton_append, ← closed, List.take_append_drop]
    · cases read
  · cases read

/-- An escape stands for one character at most. -/
theorem readEscape_shape {text decoded rest : List Char} (read : readEscape text = some (decoded, rest)) :
    ∃ raw, text = raw ++ rest ∧ 0 < raw.length ∧ decoded.length ≤ 1 := by
  unfold readEscape at read
  split at read
  · cases read
    exact ⟨['\r', '\n'], rfl, by simp, by simp⟩
  · obtain ⟨⟨c, rest'⟩, found, same⟩ := Option.map_eq_some_iff.mp read
    cases same
    obtain ⟨raw, rfl⟩ := readCodePoint_shape found
    exact ⟨'u' :: '\x7b' :: raw, rfl, by simp, by simp⟩
  · obtain ⟨⟨c, rest'⟩, found, same⟩ := Option.map_eq_some_iff.mp read
    cases same
    obtain ⟨raw, rfl⟩ := readUnits_shape found
    exact ⟨'u' :: raw, rfl, by simp, by simp⟩
  · rename_i a b rest'
    split at read
    · cases read
      exact ⟨['x', a, b], rfl, by simp, by simp⟩
    · cases read
  · rename_i c rest' _ _ _ _
    split at read
    · cases read
      exact ⟨[c], rfl, by simp, by simp⟩
    · split at read
      · cases read
      · split at read
        · split at read
          · cases read
            exact ⟨[c], rfl, by simp, by simp⟩
          · cases read
        · cases read
          exact ⟨[c], rfl, by simp, by simp⟩
  · cases read

/-- Reads the string literal of a script whose opening quote was just passed. Line breaks must
be escaped. -/
def readLiteral : List Char → Option (List Char × List Char)
  | [] => none
  | c :: rest =>
    if c = '"' then some ([], rest)
    else if c = '\n' ∨ c = '\r' then none
    else if c = '\\' then
      match _escaped : readEscape rest with
      | none => none
      | some (decoded, rest) => (readLiteral rest).map fun (text, after) => (decoded ++ text, after)
    else (readLiteral rest).map fun (text, after) => (c :: text, after)
termination_by text => text.length
decreasing_by
  · obtain ⟨raw, parts, _⟩ := readEscape_shape _escaped
    simp only [parts, List.length_append, List.length_cons]
    omega
  · simp

/-- A text that stands for itself in a literal. -/
def IsPlainSource (text : List Char) : Prop :=
  ∀ c ∈ text, c ∉ ['"', '\\', '\n', '\r']

instance (text : List Char) : Decidable (IsPlainSource text) :=
  List.decidableBAll (· ∉ ['"', '\\', '\n', '\r']) text

theorem isPlainSource_append_iff {text text' : List Char} :
    IsPlainSource (text ++ text') ↔ IsPlainSource text ∧ IsPlainSource text' :=
  List.forall_mem_append

theorem readLiteral_append {text : List Char} (plain : IsPlainSource text) (rest : List Char) :
    readLiteral (text ++ rest) = (readLiteral rest).map fun (later, after) => (text ++ later, after) := by
  induction text with
  | nil => simp
  | cons c text ih =>
    obtain ⟨here, plain⟩ := List.forall_mem_cons.mp plain
    simp only [List.mem_cons, List.not_mem_nil, or_false, not_or] at here
    rw [List.cons_append, readLiteral, if_neg here.1, if_neg (not_or.mpr here.2.2), if_neg here.2.1, ih plain,
      Option.map_map]
    rfl

theorem readLiteral_plain {text : List Char} (plain : IsPlainSource text) (rest : List Char) :
    readLiteral (text ++ '"' :: rest) = some (text, rest) := by
  rw [readLiteral_append plain, readLiteral, if_pos rfl]
  simp

/-- A literal is longer than what it stands for, unless that stands there as it is. -/
theorem readLiteral_shape {text decoded rest : List Char} (read : readLiteral text = some (decoded, rest)) :
    ∃ raw, text = raw ++ '"' :: rest ∧ (decoded = raw ∧ IsPlainSource raw ∨ decoded.length < raw.length) := by
  fun_induction readLiteral text generalizing decoded with
  | case1 => cases read
  | case2 after =>
    cases read
    exact ⟨[], rfl, Or.inl ⟨rfl, List.forall_mem_nil _⟩⟩
  | case3 => cases read
  | case4 => cases read
  | case5 text decoded' rest' found quote breaks ih =>
    obtain ⟨⟨later, _⟩, within, same⟩ := Option.map_eq_some_iff.mp read
    cases same
    obtain ⟨raw, rfl, shorter⟩ := ih within
    obtain ⟨rawEscape, rfl, full, single⟩ := readEscape_shape found
    refine ⟨'\\' :: rawEscape ++ raw, by simp, Or.inr ?_⟩
    have bound : later.length ≤ raw.length := by
      rcases shorter with ⟨rfl, _⟩ | shorter
      · exact Nat.le_refl _
      · exact Nat.le_of_lt shorter
    simp only [List.length_append, List.length_cons]
    omega
  | case6 c text quote breaks slash ih =>
    obtain ⟨⟨later, _⟩, within, same⟩ := Option.map_eq_some_iff.mp read
    cases same
    obtain ⟨raw, rfl, shape⟩ := ih within
    refine ⟨c :: raw, rfl, ?_⟩
    rcases shape with ⟨rfl, plain⟩ | shorter
    · refine Or.inl ⟨rfl, List.forall_mem_cons.mpr ⟨?_, plain⟩⟩
      simp only [List.mem_cons, List.not_mem_nil, or_false, not_or]
      exact ⟨quote, slash, not_or.mp breaks⟩
    · exact Or.inr (by simpa using shorter)

end QueryShapes
