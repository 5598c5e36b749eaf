import QueryShapes.Cast.Matrix
import QueryShapes.Proofs.SourceTokens

namespace QueryShapes

/-- A parameter of a type on two names. -/
inductive TypeParameter
  | left
  | right
deriving DecidableEq, Repr

namespace TypeParameter

def word : TypeParameter → String
  | left => "A"
  | right => "B"

def ofWord? : String → Option TypeParameter
  | "A" => some left
  | "B" => some right
  | _ => none

def value (a b : String) : TypeParameter → String
  | left => a
  | right => b

theorem ofWord?_word (p : TypeParameter) : ofWord? p.word = some p := by
  cases p <;> rfl

end TypeParameter

/-- A type that depends on two names. A branch applies if its parameter is its name. -/
inductive ConditionalType
  | branch (p : TypeParameter) (name : String) (yes no : ConditionalType)
  | parameter (p : TypeParameter)
  | constant (outcome : CastOutcome)
deriving DecidableEq, Repr

namespace ConditionalType

/-- The type for two names: the first branch that applies decides. -/
def eval (a b : String) : ConditionalType → CastOutcome
  | branch p name yes no => if p.value a b = name then yes.eval a b else no.eval a b
  | parameter p => .type (p.value a b)
  | constant outcome => outcome

/-- The names that parameters are compared with. -/
def tests : ConditionalType → List String
  | branch _ name yes no => name :: (yes.tests ++ no.tests)
  | parameter _ | constant _ => []

/-- The names that are given as results. -/
def results : ConditionalType → List String
  | branch _ _ yes no => yes.results ++ no.results
  | parameter _ => []
  | constant outcome => outcome.typeName?.toList

def tokens : ConditionalType → List SourceToken
  | branch p name yes no =>
    .word p.word :: .word "extends" :: .literal name :: .mark '?' :: (yes.tokens ++ .mark ':' :: no.tokens)
  | parameter p => [.word p.word]
  | constant (.type name) => [.literal name]
  | constant .never => [.word "never"]

/-- Reads the condition of a branch behind its parameter, and what follows. -/
def readTest : List SourceToken → Option (String × List SourceToken)
  | .word w :: .literal name :: .mark c :: rest => if w = "extends" ∧ c = '?' then some (name, rest) else none
  | _ => none

/-- Reads a type nested no deeper than the given bound, and what follows it. -/
def read : Nat → List SourceToken → Option (ConditionalType × List SourceToken)
  | bound + 1, .word w :: rest =>
    match TypeParameter.ofWord? w, readTest rest with
    | some p, some (name, rest) => do
      match ← read bound rest with
      | (yes, .mark ':' :: rest) =>
        let (no, rest) ← read bound rest
        return (branch p name yes no, rest)
      | _ => none
    | some p, none => some (parameter p, rest)
    | none, _ => if w = "never" then some (constant .never, rest) else none
  | _ + 1, .literal name :: rest => some (constant (.type name), rest)
  | _, _ => none

/-- A text that does not turn a parameter before it into a branch. -/
def EndsType (rest : List SourceToken) : Prop :=
  readTest rest = none

theorem read_tokens (bound : Nat) (t : ConditionalType) (rest : List SourceToken) (ends : EndsType rest)
    (short : t.tokens.length ≤ bound + 1) : read (bound + 1) (t.tokens ++ rest) = some (t, rest) := by
  induction t generalizing bound rest with
  | branch p name yes no ihYes ihNo =>
    simp only [tokens, List.length_cons, List.length_append] at short
    obtain ⟨inner, rfl⟩ : ∃ inner, bound = inner + 1 := ⟨bound - 1, by omega⟩
    have first := ihYes inner (.mark ':' :: (no.tokens ++ rest)) rfl (by omega)
    have second := ihNo inner rest ends (by omega)
    simp [tokens, read, readTest, TypeParameter.ofWord?_word, first, second]
  | parameter p =>
    rw [EndsType] at ends
    simp only [tokens, List.singleton_append, read, TypeParameter.ofWord?_word, ends]
  | constant outcome =>
    cases outcome with
    | type name => rfl
    | never => rfl

end ConditionalType

/-- A declared type: a union of names, or a map on two names, which may be restricted to the
members of another type. -/
inductive TypeDeclaration
  | union (name : String) (members : List String)
  | map (name : String) (key : Option String) (body : ConditionalType)
deriving DecidableEq, Repr

namespace TypeDeclaration

/-- The names that a declaration lists or compares with. -/
def keys : TypeDeclaration → List String
  | union _ members => members
  | map _ _ body => body.tests

def results : TypeDeclaration → List String
  | union _ _ => []
  | map _ _ body => body.results

def headTokens : Option String → List SourceToken
  | none => [.mark '<', .word "A", .mark ',', .word "B", .mark '>', .mark '=']
  | some key =>
    [.mark '<', .word "A", .word "extends", .word key, .mark ',', .word "B", .word "extends", .word key,
      .mark '>', .mark '=']

def tokens : TypeDeclaration → List SourceToken
  | union name members =>
    [.word "export", .word "type", .word name, .mark '='] ++
      (members.flatMap fun member => [.mark '|', .literal member]) ++ [.mark ';']
  | map name key body =>
    [.word "export", .word "type", .word name] ++ headTokens key ++ body.tokens ++ [.mark ';']

def readMembers : List SourceToken → Option (List String × List SourceToken)
  | .mark '|' :: .literal member :: rest => do
    let (members, rest) ← readMembers rest
    return (member :: members, rest)
  | .mark ';' :: rest => some ([], rest)
  | _ => none

/-- Reads the parameters of a map. -/
def readHead : List SourceToken → Option (Option String × List SourceToken)
  | .word "A" :: .mark ',' :: .word "B" :: .mark '>' :: .mark '=' :: rest => some (none, rest)
  | .word "A" :: .word "extends" :: .word key :: .mark ',' :: .word "B" :: .word "extends" :: .word key' ::
      .mark '>' :: .mark '=' :: rest => if key = key' then some (some key, rest) else none
  | _ => none

/-- Reads a declaration, and what follows it. -/
def read : List SourceToken → Option (TypeDeclaration × List SourceToken)
  | .word "export" :: .word "type" :: .word name :: .mark '=' :: rest => do
    let (members, rest) ← readMembers rest
    return (union name members, rest)
  | .word "export" :: .word "type" :: .word name :: .mark '<' :: rest => do
    let (key, rest) ← readHead rest
    match ← ConditionalType.read rest.length rest with
    | (body, .mark ';' :: rest) => return (map name key body, rest)
    | _ => none
  | _ => none

theorem readMembers_tokens (members : List String) (rest : List SourceToken) :
    readMembers ((members.flatMap fun member => [SourceToken.mark '|', .literal member]) ++
      SourceToken.mark ';' :: rest) =
      some (members, rest) := by
  induction members with
  | nil => rfl
  | cons member members ih => simp [readMembers, ih]

theorem read_tokens (d : TypeDeclaration) (rest : List SourceToken) : read (d.tokens ++ rest) = some (d, rest) := by
  cases d with
  | union name members =>
    have inner := readMembers_tokens members rest
    simp [tokens, read, inner]
  | map name key body =>
    have inner := ConditionalType.read_tokens (body.tokens.length + rest.length) body (.mark ';' :: rest) rfl
      (by omega)
    rw [Nat.add_assoc] at inner
    cases key with
    | none => simp [tokens, headTokens, read, readHead, inner]
    | some key => simp [tokens, headTokens, read, readHead, inner]

theorem tokens_ne_nil (d : TypeDeclaration) : d.tokens ≠ [] := by
  cases d <;> simp [tokens]

/-- Reads declarations to the end, at most as many as the given bound. -/
def readAll : Nat → List SourceToken → Option (List TypeDeclaration)
  | _, [] => some []
  | 0, _ => none
  | bound + 1, tokens => do
    let (d, rest) ← read tokens
    return d :: (← readAll bound rest)

theorem readAll_tokens (bound : Nat) (declarations : List TypeDeclaration) (short : declarations.length ≤ bound) :
    readAll bound (declarations.flatMap tokens) = some declarations := by
  induction declarations generalizing bound with
  | nil => cases bound <;> rfl
  | cons d declarations ih =>
    obtain ⟨inner, rfl⟩ : ∃ inner, bound = inner + 1 := ⟨bound - 1, by rw [List.length_cons] at short; omega⟩
    have first := read_tokens d (declarations.flatMap tokens)
    have others := ih inner (by simpa using short)
    obtain ⟨token, tail, parts⟩ := List.exists_cons_of_ne_nil d.tokens_ne_nil
    rw [parts, List.cons_append] at first
    rw [List.flatMap_cons, parts, List.cons_append, readAll]
    · simp [first, others]
    · simp

end TypeDeclaration

/-- The types that a source text declares, if it declares nothing else. -/
def declaredTypes (text : String) : Option (List TypeDeclaration) :=
  let tokens := sourceTokens text.toList
  TypeDeclaration.readAll tokens.length tokens

theorem declaredTypes_of_sourceTokens {text : String} {declarations : List TypeDeclaration}
    (read : sourceTokens text.toList = declarations.flatMap TypeDeclaration.tokens) :
    declaredTypes text = some declarations := by
  have short : declarations.length ≤ (declarations.flatMap TypeDeclaration.tokens).length := by
    clear read
    induction declarations with
    | nil => exact Nat.le_refl _
    | cons d declarations ih =>
      have full : 0 < d.tokens.length := List.length_pos_iff.mpr d.tokens_ne_nil
      rw [List.flatMap_cons, List.length_append, List.length_cons]
      omega
  simp only [declaredTypes, read]
  exact TypeDeclaration.readAll_tokens _ declarations short

end QueryShapes
