import QueryShapes.Cast.Closure

namespace QueryShapes

/-- A type listed for comparison. -/
structure Candidate where
  id : TypeId
  name : String
deriving DecidableEq, Repr

/-- The type at which the values of two types meet. -/
inductive CastOutcome
  | type (name : String)
  | never
deriving DecidableEq, Repr

namespace CastOutcome

def typeName? : CastOutcome → Option String
  | type name => some name
  | never => none

def text : CastOutcome → String
  | type name => name
  | never => "never"

end CastOutcome

inductive CastRule
  | sameType
  | sourceToTarget
  | targetToSource
  | sharedTarget
  | fallback
deriving DecidableEq, Repr

structure CastDecision where
  rule : CastRule
  outcome : CastOutcome
deriving DecidableEq, Repr

/-- A pair of types with several shared targets, none of which can be cast to
all the others from the first listed one. -/
structure CastAmbiguity where
  left : String
  right : String
  candidates : List String
deriving DecidableEq, Repr

/-- A listed type with all types its values can be cast to. -/
structure CastNode where
  id : TypeId
  name : String
  reach : List TypeId
deriving DecidableEq, Repr

/-- How two listed types stand to each other. The shared targets are listed
types that both can be cast to. -/
inductive CastRelation
  | same
  | forward
  | backward
  | apart (shared : List CastNode)
deriving DecidableEq, Repr

def relateCasts (nodes : List CastNode) (a b : CastNode) : CastRelation :=
  if a.id = b.id then .same
  else if b.id ∈ a.reach then .forward
  else if a.id ∈ b.reach then .backward
  else .apart (nodes.filter fun c => c.id ∈ a.reach && c.id ∈ b.reach)

/-- Types that are apart meet at their first shared target. At the fallback's
type they meet anyway, so that is not counted as shared. -/
def decideCast (fallback : CastOutcome) (a b : CastNode) : CastRelation → CastDecision
  | .same => ⟨.sameType, .type b.name⟩
  | .forward => ⟨.sourceToTarget, .type b.name⟩
  | .backward => ⟨.targetToSource, .type a.name⟩
  | .apart [] => ⟨.fallback, fallback⟩
  | .apart (chosen :: _) =>
    if fallback = .type chosen.name then ⟨.fallback, fallback⟩ else ⟨.sharedTarget, .type chosen.name⟩

def castAmbiguity? (a b : CastNode) : CastRelation → Option CastAmbiguity
  | .apart (chosen :: others) =>
    if others.all (·.id ∈ chosen.reach) then none
    else some ⟨a.name, b.name, (chosen :: others).map CastNode.name⟩
  | _ => none

/-- The decisions for every ordered pair of a list of types, row by row. -/
structure CastMatrix where
  names : List String
  rows : List (List CastDecision)
  ambiguities : List CastAmbiguity
  fallback : CastOutcome
deriving DecidableEq, Repr

/-- The position of the last element that equals `a`. -/
def lastIndex? {α : Type} [DecidableEq α] (a : α) : List α → Option Nat
  | [] => none
  | b :: rest =>
    match lastIndex? a rest with
    | some i => some (i + 1)
    | none => if b = a then some 0 else none

namespace CastMatrix

def ofNodes (nodes : List CastNode) (fallback : CastOutcome) : CastMatrix where
  names := nodes.map CastNode.name
  rows := nodes.map fun a => nodes.map fun b => decideCast fallback a b (relateCasts nodes a b)
  ambiguities := nodes.flatMap fun a => nodes.filterMap fun b => castAmbiguity? a b (relateCasts nodes a b)
  fallback := fallback

/-- Compares types by chains of the given casts. -/
def build (candidates : List Candidate) (casts : CastMap) (fallback : CastOutcome) : CastMatrix :=
  let closed := casts.closure
  ofNodes (candidates.map fun c => ⟨c.id, c.name, closed.targets c.id⟩) fallback

def size (m : CastMatrix) : Nat :=
  m.names.length

def isEmpty (m : CastMatrix) : Bool :=
  m.names.isEmpty

/-- Of listed types that share a name the last one is found. -/
def resolve (m : CastMatrix) (a b : String) : Option CastDecision := do
  let i ← lastIndex? a m.names
  let j ← lastIndex? b m.names
  (← m.rows[i]?)[j]?

/-- A listed type's decisions, each with the name of the other type. -/
def row (m : CastMatrix) (a : String) : List (String × CastDecision) :=
  match lastIndex? a m.names with
  | some i => m.names.zip (m.rows[i]?.getD [])
  | none => []

end CastMatrix
end QueryShapes
