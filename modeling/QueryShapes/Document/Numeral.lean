import QueryShapes.Document.Fault

namespace QueryShapes

/-- A number as far as it could be read. Where its value is looked at, a number
beyond all floating-point numbers is a fault; where it is skipped, only its
spelling counts, and an early end is a wrong spelling. -/
structure Numeral where
  readFault : Option Fault
  skipFault : Option Fault
deriving DecidableEq, Repr

/-- One digit or more, and what follows them. -/
def scanDigits : List Char → Except Fault (List Char × List Char)
  | [] => .error .truncated
  | c :: rest =>
    if c.isDigit then .ok (c :: rest.takeWhile Char.isDigit, rest.dropWhile Char.isDigit)
    else .error .malformed

theorem scanDigits_length {s ds rest : List Char} (h : scanDigits s = .ok (ds, rest)) :
    rest.length < s.length := by
  cases s with
  | nil => simp [scanDigits] at h
  | cons c s =>
    by_cases digit : c.isDigit
    · simp only [scanDigits, digit, if_true, Except.ok.injEq, Prod.mk.injEq] at h
      have := (List.dropWhile_sublist (l := s) Char.isDigit).length_le
      simp only [← h.2, List.length_cons]
      omega
    · simp [scanDigits, digit] at h

def digitsValue (digits : List Char) : Nat :=
  digits.foldl (fun n c => n * 10 + (c.toNat - 48)) 0

/-- The least magnitude that rounds to infinity: half a step above the largest
floating-point number. -/
def overflowBound : Nat :=
  Nat.pow 2 1024 - Nat.pow 2 970

/-- Whether `mantissa * 10 ^ exponent` is beyond the floating-point numbers.
The number of digits decides unless the two are of the same length. -/
def overflows (mantissa : Nat) (exponent : Int) : Bool :=
  if mantissa = 0 then false
  else
    let length : Int := ((Nat.toDigits 10 mantissa).length : Int) + exponent
    if length < 309 then false
    else if 309 < length then true
    else if 0 ≤ exponent then overflowBound ≤ mantissa * Nat.pow 10 exponent.toNat
    else overflowBound * Nat.pow 10 (-exponent).toNat ≤ mantissa

/-- The digits after a decimal point, if there is one. -/
def scanFraction : List Char → Except Fault (List Char × List Char)
  | '.' :: rest => scanDigits rest
  | rest => .ok ([], rest)

theorem scanFraction_length {s ds rest : List Char} (h : scanFraction s = .ok (ds, rest)) :
    rest.length ≤ s.length := by
  unfold scanFraction at h
  split at h
  · have := scanDigits_length h
    simp only [List.length_cons]
    omega
  · cases h
    exact Nat.le_refl _

/-- The sign of an exponent and what follows it. -/
def scanSign : List Char → Int × List Char
  | '-' :: rest => (-1, rest)
  | '+' :: rest => (1, rest)
  | rest => (1, rest)

theorem scanSign_length (s : List Char) : (scanSign s).2.length ≤ s.length := by
  unfold scanSign
  split <;> simp

def scanExponent : List Char → Except Fault (Int × List Char)
  | [] => .ok (0, [])
  | c :: rest =>
    if c = 'e' ∨ c = 'E' then
      match scanDigits (scanSign rest).2 with
      | .ok (ds, after) => .ok ((scanSign rest).1 * (digitsValue ds : Int), after)
      | .error f => .error f
    else .ok (0, c :: rest)

theorem scanExponent_length {s rest : List Char} {e : Int} (h : scanExponent s = .ok (e, rest)) :
    rest.length ≤ s.length := by
  unfold scanExponent at h
  split at h
  · cases h
    exact Nat.le_refl _
  · rename_i c tail
    split at h
    · split at h
      · rename_i ds after digits
        cases h
        have := scanDigits_length digits
        have := scanSign_length tail
        simp only [List.length_cons]
        omega
      · cases h
    · cases h
      exact Nat.le_refl _

/-- Reads the number that starts here, its sign aside. A leading zero stands alone. -/
def scanMagnitude (s : List Char) : Except Fault (Numeral × List Char) :=
  match scanDigits s with
  | .error f => .error f
  | .ok (whole, rest) =>
    if whole.head? = some '0' ∧ whole.length ≠ 1 then .error .malformed
    else
      match scanFraction rest with
      | .error f => .error f
      | .ok (fraction, rest) =>
        match scanExponent rest with
        | .error f => .error f
        | .ok (exponent, rest) =>
          let tooLarge := overflows (digitsValue (whole ++ fraction)) (exponent - (fraction.length : Int))
          .ok (⟨if tooLarge then some .malformed else none, none⟩, rest)

theorem scanMagnitude_length {s rest : List Char} {n : Numeral} (h : scanMagnitude s = .ok (n, rest)) :
    rest.length < s.length := by
  unfold scanMagnitude at h
  split at h
  · cases h
  · rename_i atWhole
    split at h
    · cases h
    · split at h
      · cases h
      · rename_i atFraction
        split at h
        · cases h
        · rename_i atExponent
          cases h
          have := scanDigits_length atWhole
          have := scanFraction_length atFraction
          have := scanExponent_length atExponent
          omega

/-- Reads the number that starts with a character, of which nothing follows
when it is spelled wrong. -/
def scanNumeral (c : Char) (rest : List Char) : Numeral × List Char :=
  match scanMagnitude (if c = '-' then rest else c :: rest) with
  | .ok found => found
  | .error f => (⟨some f, some .malformed⟩, [])

theorem scanNumeral_length (c : Char) (rest : List Char) : (scanNumeral c rest).2.length ≤ rest.length := by
  unfold scanNumeral
  split
  · rename_i n after found
    have := scanMagnitude_length found
    split at this
    all_goals simp_all
    all_goals omega
  · simp

end QueryShapes
