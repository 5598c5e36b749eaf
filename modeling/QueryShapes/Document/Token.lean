import QueryShapes.Document.Literal
import QueryShapes.Document.Numeral

namespace QueryShapes

inductive Token
  | openList
  | closeList
  | openObject
  | closeObject
  | comma
  | colon
  | null
  | flag (b : Bool)
  | literal (l : Literal)
  | numeral (n : Numeral)
  | bad (f : Fault)
deriving DecidableEq, Repr

def isBlank (c : Char) : Bool :=
  c == ' ' || c == '\t' || c == '\n' || c == '\r'

/-- A token, if the letters of its word follow. -/
def scanWord (token : Token) : List Char → List Char → Token × List Char
  | [], rest => (token, rest)
  | _ :: _, [] => (.bad .truncated, [])
  | w :: word, c :: rest => if w = c then scanWord token word rest else (.bad .malformed, [])

theorem scanWord_length (token : Token) (word s : List Char) : (scanWord token word s).2.length ≤ s.length := by
  fun_induction scanWord token word s
  all_goals simp_all
  all_goals omega

/-- The token that starts with a character, and what follows it. -/
def scanToken (c : Char) (rest : List Char) : Token × List Char :=
  match c with
  | '[' => (.openList, rest)
  | ']' => (.closeList, rest)
  | '\x7b' => (.openObject, rest)
  | '\x7d' => (.closeObject, rest)
  | ',' => (.comma, rest)
  | ':' => (.colon, rest)
  | '"' =>
    let (l, rest) := scanLiteral [] rest
    (.literal l, rest)
  | 'n' => scanWord .null ['u', 'l', 'l'] rest
  | 't' => scanWord (.flag true) ['r', 'u', 'e'] rest
  | 'f' => scanWord (.flag false) ['a', 'l', 's', 'e'] rest
  | c =>
    if c = '-' ∨ c.isDigit then
      let (n, rest) := scanNumeral c rest
      (.numeral n, rest)
    else (.bad .malformed, [])

theorem scanToken_length (c : Char) (rest : List Char) : (scanToken c rest).2.length ≤ rest.length := by
  unfold scanToken
  split <;> try exact Nat.le_refl _
  · exact scanLiteral_length [] rest
  · exact scanWord_length _ _ rest
  · exact scanWord_length _ _ rest
  · exact scanWord_length _ _ rest
  · split
    · exact scanNumeral_length _ rest
    · simp

/-- The tokens of a text, after those already found. -/
def tokensFrom (found : List Token) : List Char → List Token
  | [] => found.reverse
  | c :: rest =>
    if isBlank c then tokensFrom found rest
    else tokensFrom ((scanToken c rest).1 :: found) (scanToken c rest).2
termination_by s => s.length
decreasing_by
  · simp
  · have := scanToken_length c rest
    simp only [List.length_cons]
    omega

def tokens (s : String) : List Token :=
  tokensFrom [] s.toList

end QueryShapes
