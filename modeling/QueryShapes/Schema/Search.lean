import QueryShapes.Schema.Fresh
import QueryShapes.Schema.Graph

namespace QueryShapes.Graph

variable {κ : Type} [DecidableEq κ]

/-- Follows the edges of a source record depth first. The path holds the keys
from the root down to the source, and an edge back to it is a cycle. A record
joins `done` after all that its edges lead to; one whose key is done already is
not entered again. -/
def follow (g : Graph) (key : TypeRecord → κ) (edges : TypeRecord → List TypeId) (path : List κ)
    (source : TypeRecord) : List TypeId → List TypeRecord → Except SchemaError (List TypeRecord)
  | [], done => .ok done
  | id :: ids, done =>
    match _resolved : g.resolve source.name id with
    | .error e => .error e
    | .ok target =>
      if _onPath : key target ∈ path then .error (.dependencyCycle target.name source.name)
      else if key target ∈ done.map key then follow g key edges path source ids done
      else
        match follow g key edges (key target :: path) target (edges target) done with
        | .error e => .error e
        | .ok done => follow g key edges path source ids (done ++ [target])
termination_by ids _ => (fresh (g.records.map key) path, ids.length)
decreasing_by
  · exact Prod.Lex.right _ (by simp)
  · exact Prod.Lex.left _ _
      (fresh_cons_lt (List.mem_map_of_mem (mem_of_get? (get?_of_resolve _resolved))) _onPath)
  · exact Prod.Lex.right _ (by simp)

/-- The records that the roots lead to, each after all that its edges lead to. -/
def postOrder (g : Graph) (key : TypeRecord → κ) (edges : TypeRecord → List TypeId) :
    List TypeRecord → List TypeRecord → Except SchemaError (List TypeRecord)
  | [], done => .ok done
  | root :: roots, done =>
    if key root ∈ done.map key then postOrder g key edges roots done
    else
      match follow g key edges [key root] root (edges root) done with
      | .error e => .error e
      | .ok done => postOrder g key edges roots (done ++ [root])

end QueryShapes.Graph
