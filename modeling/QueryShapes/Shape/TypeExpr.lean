import QueryShapes.Scope
import QueryShapes.Text.Quoted

namespace QueryShapes

/-- The client-side type of a property's values. -/
inductive TypeExpr
  | primitive (p : Primitive)
  | enumeration (name : QualifiedName)
  | array (element : TypeExpr)
  | tuple (elements : List TypeExpr)
  | record (fields : List (String × TypeExpr))
deriving Repr

namespace TypeExpr

mutual

def text : TypeExpr → String
  | primitive p => p.text
  | enumeration name => name.moduleIdent ++ "Types." ++ name.localIdent
  | array element => "Array<" ++ element.text ++ ">"
  | tuple elements => "[" ++ String.intercalate ", " (texts elements) ++ "]"
  | record fields => "\x7b" ++ String.intercalate ", " (fieldTexts fields) ++ "\x7d"

def texts : List TypeExpr → List String
  | [] => []
  | e :: rest => e.text :: texts rest

def fieldTexts : List (String × TypeExpr) → List String
  | [] => []
  | (name, e) :: rest => (memberKey name ++ ": " ++ e.text) :: fieldTexts rest

end

end TypeExpr

namespace Scope

/-- The type of the values of a scalar, array or tuple. Scalars stand for their
material scalar, except that an enum keeps its own name, or is a string where
it is left out. The path holds the types that are being represented; a graph
whose representations are well founded never leads back to it. -/
def typeExprFrom (s : Scope) (path : List TypeId) (referencing : String) (id : TypeId) :
    Except SchemaError TypeExpr :=
  match _found : s.graph.resolve referencing id with
  | .error e => .error e
  | .ok r =>
    if _new : r.id ∈ path then .error (.dependencyCycle r.name referencing)
    else
      match r.kind with
      | .scalar t =>
        if t.isEnum then
          if s.keepsEnum r then r.qualifiedName.map .enumeration else .ok (.primitive .string)
        else
          match t.material with
          | none => .ok (.primitive (.ofScalar r.name))
          | some material =>
            if material = r.id then .ok (.primitive (.ofScalar r.name))
            else typeExprFrom s (r.id :: path) r.name material
      | .object _ => .error (.wrongKind r "scalar")
      | .array element => (typeExprFrom s (r.id :: path) r.name element).map .array
      | .tuple elements =>
        match elements.mapM fun e => typeExprFrom s (r.id :: path) r.name e.target with
        | .error e => .error e
        | .ok types =>
          if areNamed elements then .ok (.record ((elements.map TupleElement.name).zip types))
          else .ok (.tuple types)
termination_by fresh s.graph.ids path
decreasing_by
  all_goals exact fresh_cons_lt (List.mem_map_of_mem (Graph.mem_of_get? (Graph.get?_of_resolve _found))) _new

def typeExpr (s : Scope) (referencing : String) (id : TypeId) : Except SchemaError TypeExpr :=
  s.typeExprFrom [] referencing id

end Scope
end QueryShapes
