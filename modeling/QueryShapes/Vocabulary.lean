namespace QueryShapes

/-- How many values a pointer may hold. -/
inductive Cardinality
  | one
  | atMostOne
  | many
  | atLeastOne
deriving DecidableEq, Repr

namespace Cardinality

def ofFlags : (many : Bool) → (required : Bool) → Cardinality
  | false, true => one
  | false, false => atMostOne
  | true, true => atLeastOne
  | true, false => many

def marker : Cardinality → String
  | one => "One"
  | atMostOne => "AtMostOne"
  | many => "Many"
  | atLeastOne => "AtLeastOne"

def isMulti : Cardinality → Bool
  | many | atLeastOne => true
  | one | atMostOne => false

def isRequired : Cardinality → Bool
  | one | atLeastOne => true
  | atMostOne | many => false

end Cardinality

inductive PointerKind
  | property
  | link
  | computable
deriving DecidableEq, Repr

namespace PointerKind

def ofMarker? : String → Option PointerKind
  | "property" => some property
  | "link" => some link
  | "computable" => some computable
  | _ => none

def marker : PointerKind → String
  | property => "property"
  | link => "link"
  | computable => "computable"

end PointerKind

/-- The client-side type that carries the values of a scalar. -/
inductive Primitive
  | number
  | string
  | boolean
  | bigInt
  | binary
  | unknown
deriving DecidableEq, Repr

namespace Primitive

/-- Decimals, dates and durations have no lossless counterpart, so every name
outside the table is unknown. -/
def ofScalar : String → Primitive
  | "std::int16" | "std::int32" | "std::int64" | "std::float32" | "std::float64" => number
  | "std::str" | "std::uuid" | "std::json" => string
  | "std::bool" => boolean
  | "std::bigint" => bigInt
  | "std::bytes" => binary
  | _ => unknown

def text : Primitive → String
  | number => "number"
  | string => "string"
  | boolean => "boolean"
  | bigInt => "BigInt"
  | binary => "Buffer"
  | unknown => "unknown"

end Primitive
end QueryShapes
