import QueryShapes.Cast.Matrix
import QueryShapes.Text.Line
import QueryShapes.Text.Quoted

namespace QueryShapes

/-- The type expression of an outcome. -/
def CastOutcome.expr : CastOutcome → String
  | type name => quoted name
  | never => "never"

/-- What a branch of the conditional type gives. A fallback has no branch: it is
what remains when no branch applies. -/
def CastDecision.branch? (d : CastDecision) : Option String :=
  match d.rule with
  | .sameType | .sourceToTarget => some "B"
  | .targetToSource => some "A"
  | .sharedTarget => some d.outcome.expr
  | .fallback => none

/-- The members of a union of names, the last one with the end of the statement. -/
def unionLines : List String → List Line
  | [] => []
  | [name] => [.of ("| " ++ quoted name ++ ";")]
  | name :: rest => .of ("| " ++ quoted name) :: unionLines rest

namespace CastMatrix

/-- The branches on the second parameter, for one name of the first. -/
def branchLines (m : CastMatrix) (outer : String) : List Line :=
  (m.row outer).filterMap fun (inner, decision) =>
    decision.branch?.map fun result => .of ("B extends " ++ quoted inner ++ " ? " ++ result ++ " :")

def caseLines (m : CastMatrix) (outer : String) : List Line :=
  .of ("A extends " ++ quoted outer ++ " ?") ::
    nested (m.branchLines outer ++ [.of (m.fallback.expr ++ " :")])

/-- Parameters are restricted to the listed names only if the fallback is a
type, and if there are names. -/
def hasKey (m : CastMatrix) : Bool :=
  m.fallback.typeName?.isSome && !m.isEmpty

def headLines (m : CastMatrix) (mapName : String) : List Line :=
  if m.hasKey then
    let key := mapName ++ "Key"
    [.of ("export type " ++ key ++ " =")] ++ nested (unionLines m.names) ++
      [.blank, .of ("export type " ++ mapName ++ "<A extends " ++ key ++ ", B extends " ++ key ++ "> =")]
  else [.of ("export type " ++ mapName ++ "<A, B> =")]

/-- A conditional type that computes the matrix's outcomes. -/
def lines (m : CastMatrix) (mapName : String) : List Line :=
  m.headLines mapName ++ nested (m.names.flatMap m.caseLines ++ [.of (m.fallback.expr ++ ";")])

end CastMatrix
end QueryShapes
