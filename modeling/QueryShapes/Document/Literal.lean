import QueryShapes.Document.Fault

namespace QueryShapes

/-- What a string literal is made of: characters, and the UTF-16 units that
four-digit escapes name. -/
inductive Piece
  | char (c : Char)
  | unit (n : Nat)
deriving DecidableEq, Repr

/-- A string literal as far as it could be read. -/
structure Literal where
  pieces : List Piece
  fault : Option Fault
deriving DecidableEq, Repr

def hexValue? (c : Char) : Option Nat :=
  if c.isDigit then some (c.toNat - 48)
  else if 'a' ≤ c ∧ c ≤ 'f' then some (c.toNat - 87)
  else if 'A' ≤ c ∧ c ≤ 'F' then some (c.toNat - 55)
  else none

def unitOf? (a b c d : Char) : Option Nat := do
  return (((← hexValue? a) * 16 + (← hexValue? b)) * 16 + (← hexValue? c)) * 16 + (← hexValue? d)

/-- The character that a one-letter escape stands for. -/
def shortEscape? : Char → Option Char
  | '"' => some '"'
  | '\\' => some '\\'
  | '/' => some '/'
  | 'b' => some '\x08'
  | 'f' => some '\x0c'
  | 'n' => some '\n'
  | 'r' => some '\r'
  | 't' => some '\t'
  | _ => none

/-- Fewer than four bytes after the letter of a four-digit escape are an early
end; four bytes that are no digits are not JSON. -/
def shortUnitFault (rest : List Char) : Fault :=
  if (String.ofList rest).utf8ByteSize < 4 then .truncated else .malformed

/-- Reads the literal whose opening quote was just passed. Control characters
must be escaped. Of a literal with a fault nothing follows. -/
def scanLiteral (pieces : List Piece) : List Char → Literal × List Char
  | [] => (⟨pieces.reverse, some .truncated⟩, [])
  | '"' :: rest => (⟨pieces.reverse, none⟩, rest)
  | '\\' :: rest =>
    match rest with
    | [] => (⟨pieces.reverse, some .truncated⟩, [])
    | 'u' :: rest =>
      match rest with
      | a :: b :: c :: d :: rest =>
        match unitOf? a b c d with
        | some n => scanLiteral (.unit n :: pieces) rest
        | none => (⟨pieces.reverse, some .malformed⟩, [])
      | rest => (⟨pieces.reverse, some (shortUnitFault rest)⟩, [])
    | e :: rest =>
      match shortEscape? e with
      | some c => scanLiteral (.char c :: pieces) rest
      | none => (⟨pieces.reverse, some .malformed⟩, [])
  | c :: rest =>
    if c.toNat < 32 then (⟨pieces.reverse, some .malformed⟩, [])
    else scanLiteral (.char c :: pieces) rest

theorem scanLiteral_length (pieces : List Piece) (s : List Char) :
    (scanLiteral pieces s).2.length ≤ s.length := by
  fun_induction scanLiteral pieces s
  all_goals simp_all
  all_goals omega

def isHighSurrogate (n : Nat) : Bool :=
  0xD800 ≤ n && n ≤ 0xDBFF

def isLowSurrogate (n : Nat) : Bool :=
  0xDC00 ≤ n && n ≤ 0xDFFF

def surrogatePair (high low : Nat) : Char :=
  Char.ofNat (0x10000 + (high - 0xD800) * 0x400 + (low - 0xDC00))

/-- The characters that the pieces spell. A high surrogate must be followed by
a low one; where the literal breaks off right after it, that break decides. -/
def joinPieces (fault : Option Fault) (done : List Char) : List Piece → Except Fault (List Char)
  | [] =>
    match fault with
    | none => .ok done.reverse
    | some f => .error f
  | .char c :: rest => joinPieces fault (c :: done) rest
  | .unit n :: rest =>
    if isHighSurrogate n then
      match rest with
      | [] => .error (fault.getD .malformed)
      | .char _ :: _ => .error .malformed
      | .unit m :: rest =>
        if isLowSurrogate m then joinPieces fault (surrogatePair n m :: done) rest
        else .error .malformed
    else if isLowSurrogate n then .error .malformed
    else joinPieces fault (Char.ofNat n :: done) rest

def Literal.text (l : Literal) : Except Fault String :=
  (joinPieces l.fault [] l.pieces).map String.ofList

end QueryShapes
