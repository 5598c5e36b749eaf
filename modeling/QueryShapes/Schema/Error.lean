import QueryShapes.Name
import QueryShapes.Schema.Record

namespace QueryShapes

/-- Why records form no graph, or a graph has no order or scope. -/
inductive SchemaError
  | unknownReference (referencing : String) (missing : TypeId)
  | dependencyCycle (name conflicting : String)
  | duplicateDefinition (id : TypeId) (name : String)
  | invalidName (name : String)
  | typeNotFound (name : String)
  | unexpectedKind (name expected actual : String)
deriving DecidableEq, Repr

namespace SchemaError

def ofInvalidName (e : InvalidName) : SchemaError :=
  invalidName e.name

/-- The record is of another kind than the place where it is used asks for. -/
def wrongKind (r : TypeRecord) (expected : String) : SchemaError :=
  unexpectedKind r.name expected r.kind.label

def message : SchemaError → String
  | unknownReference referencing missing =>
    "type '" ++ referencing ++ "' references unknown type id '" ++ missing.text ++ "'"
  | dependencyCycle name conflicting => "dependency cycle between '" ++ name ++ "' and '" ++ conflicting ++ "'"
  | duplicateDefinition id name => "duplicate definition of type id '" ++ id.text ++ "' ('" ++ name ++ "')"
  | invalidName name => "invalid qualified name '" ++ name ++ "'"
  | typeNotFound name => "type '" ++ name ++ "' not found"
  | unexpectedKind name expected actual => "type '" ++ name ++ "' is a " ++ actual ++ ", expected " ++ expected

end SchemaError

/-- The parts of a record's name. -/
def TypeRecord.qualifiedName (r : TypeRecord) : Except SchemaError QualifiedName :=
  (QualifiedName.parse r.name).mapError SchemaError.ofInvalidName

end QueryShapes
