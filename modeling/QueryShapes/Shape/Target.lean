import QueryShapes.GenerationError
import QueryShapes.Shape.TypeExpr

namespace QueryShapes

/-- What a pointer leads to. A link names the shapes of its target as a choice
of combinations, or is unknown when one of them has no shape in the output. -/
inductive Target
  | property (type : TypeExpr)
  | unknownLink
  | link (groups : List (List String))
deriving Repr

namespace Target

/-- The groups of symbols as nested lists, each symbol under a given lead. -/
def groupText (lead : String) (groups : List (List String)) : String :=
  let group (symbols : List String) :=
    "[" ++ String.intercalate "," (symbols.map fun symbol => lead ++ "base." ++ symbol) ++ "]"
  "[" ++ String.intercalate "," (groups.map group) ++ "]"

def typeText : Target → String
  | property type => type.text
  | unknownLink => Primitive.unknown.text
  | link groups => groupText "typeof " groups

/-- Only links have a value at run time. -/
def valueText? : Target → Option String
  | property _ => none
  | unknownLink => some "null"
  | link groups => some (groupText "" groups)

def isLink : Target → Bool
  | property _ => false
  | unknownLink | link _ => true

end Target

namespace Graph

/-- An object type, where one is required. -/
def resolveObject (g : Graph) (referencing : String) (id : TypeId) : Except SchemaError (TypeRecord × ObjectType) :=
  match g.resolve referencing id with
  | .error e => .error e
  | .ok r =>
    match r.object? with
    | some o => .ok (r, o)
    | none => .error (.wrongKind r "object")

theorem get?_of_resolveObject {g : Graph} {name : String} {id : TypeId} {r : TypeRecord} {o : ObjectType}
    (h : g.resolveObject name id = .ok (r, o)) : g.get? id = some r := by
  unfold resolveObject at h
  split at h
  · cases h
  · rename_i found
    split at h
    · cases h
      exact get?_of_resolve found
    · cases h

/-- The plain members of a union or intersection, nested ones of the same kind
flattened, each once. Pending members come with the name of the type that lists
them. -/
def flatten (g : Graph) (junction : Junction) :
    List (String × TypeId) → List TypeId → Except GenerationError (List TypeRecord)
  | [], _ => .ok []
  | (owner, id) :: pending, seen =>
    if _old : id ∈ seen then flatten g junction pending seen
    else
      match _found : g.resolveObject owner id with
      | .error e => .error (.schema e)
      | .ok (member, o) =>
        if junction.other.members o ≠ [] then .error (.unsupportedShape owner junction member.name)
        else if junction.members o ≠ [] then
          flatten g junction ((junction.members o).map (member.name, ·) ++ pending) (id :: seen)
        else (flatten g junction pending (id :: seen)).map (member :: ·)
termination_by pending seen => (fresh g.ids seen, pending.length)
decreasing_by
  · exact Prod.Lex.right _ (by simp)
  all_goals
    have found := get?_of_resolveObject _found
    exact Prod.Lex.left _ _ (fresh_cons_lt (id_of_get? found ▸ List.mem_map_of_mem (mem_of_get? found)) _old)

/-- The members of a type, each alone if any of them will do, and all in one
group if a value belongs to all of them. -/
def groups (g : Graph) (target : TypeRecord) (o : ObjectType) : Except GenerationError (List (List TypeRecord)) :=
  if o.isIntersection then
    (g.flatten .intersection (o.intersectionOf.map (target.name, ·)) []).map ([·])
  else if o.isUnion then
    (g.flatten .union (o.unionOf.map (target.name, ·)) []).map fun members => members.map ([·])
  else .ok [[target]]

end Graph

namespace Scope

def symbolOf (r : TypeRecord) : Except SchemaError String :=
  r.qualifiedName.map QualifiedName.symbol

def linkTarget (s : Scope) (referencing : String) (id : TypeId) : Except GenerationError Target :=
  match s.graph.resolveObject referencing id with
  | .error e => .error (.schema e)
  | .ok (target, o) =>
    match s.graph.groups target o with
    | .error e => .error e
    | .ok groups =>
      if groups.flatten.all s.keepsShape then
        let symbols : Except SchemaError (List (List String)) := groups.mapM (List.mapM symbolOf)
        (symbols.map .link).mapError .schema
      else .ok .unknownLink

end Scope
end QueryShapes
