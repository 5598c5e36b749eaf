import QueryShapes.Output.Sink
import QueryShapes.Schema.Error
import QueryShapes.Source

namespace QueryShapes

/-- How a type stands for several others. -/
inductive Junction
  | union
  | intersection
deriving DecidableEq, Repr

namespace Junction

def other : Junction → Junction
  | union => intersection
  | intersection => union

def members : Junction → ObjectType → List TypeId
  | union, o => o.unionOf
  | intersection, o => o.intersectionOf

def label : Junction → String
  | union => "union"
  | intersection => "intersection"

/-- The label with its article. -/
def phrase : Junction → String
  | union => "a union"
  | intersection => "an intersection"

end Junction

/-- Why a run ends without its output. A shape is unsupported when a union lists
an intersection as its member, or the reverse. -/
inductive GenerationError
  | document (e : DocumentError)
  | schema (e : SchemaError)
  | source (e : SourceError)
  | unsupportedShape (name : String) (junction : Junction) (member : String)
  | refused (r : Refusal)
  | unreadable (reason : String)
deriving DecidableEq, Repr

def GenerationError.message : GenerationError → String
  | document e => "snapshot parse error: " ++ e.message
  | schema e => "schema error: " ++ e.message
  | source e => "source error: " ++ e.message
  | unsupportedShape name junction member =>
    "unsupported shape for type '" ++ name ++ "': " ++ junction.label ++ " member '" ++ member ++ "' is " ++
      junction.other.phrase
  | refused r => "failed to persist '" ++ r.path ++ "': " ++ r.reason
  | unreadable reason => "IO error: " ++ reason

end QueryShapes
