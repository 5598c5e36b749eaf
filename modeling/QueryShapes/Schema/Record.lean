import QueryShapes.Vocabulary

namespace QueryShapes

structure TypeId where
  text : String
deriving DecidableEq, Repr

/-- A property that each link of a pointer carries. -/
structure LinkProperty where
  name : String
  target : TypeId
deriving DecidableEq, Repr

/-- A pointer declared on an object type. -/
structure Pointer where
  name : String
  kind : PointerKind
  cardinality : Cardinality
  target : TypeId
  expr : Option String
  linkProperties : List LinkProperty
deriving DecidableEq, Repr

structure ScalarType where
  isAbstract : Bool
  bases : List TypeId
  enumValues : List String
  material : Option TypeId
deriving DecidableEq, Repr

/-- An object type. One with union or intersection members stands for a
combination of types and has no shape of its own. -/
structure ObjectType where
  isAbstract : Bool
  bases : List TypeId
  unionOf : List TypeId
  intersectionOf : List TypeId
  pointers : List Pointer
deriving DecidableEq, Repr

structure TupleElement where
  name : String
  target : TypeId
deriving DecidableEq, Repr

inductive TypeKind
  | scalar (s : ScalarType)
  | object (o : ObjectType)
  | array (element : TypeId)
  | tuple (elements : List TupleElement)
deriving DecidableEq, Repr

/-- One introspected type. -/
structure TypeRecord where
  id : TypeId
  name : String
  kind : TypeKind
deriving DecidableEq, Repr

structure Cast where
  source : TypeId
  target : TypeId
  allowImplicit : Bool
  allowAssignment : Bool
deriving DecidableEq, Repr

structure Snapshot where
  types : List TypeRecord
  casts : List Cast
deriving DecidableEq, Repr

def Pointer.isLink (p : Pointer) : Bool :=
  p.kind == .link

namespace ScalarType

def isEnum (s : ScalarType) : Bool :=
  !s.enumValues.isEmpty

/-- Material scalars are stored as they are. -/
def isMaterial (s : ScalarType) : Bool :=
  !s.isAbstract && !s.isEnum && s.material.isNone

end ScalarType

namespace ObjectType

def isUnion (o : ObjectType) : Bool :=
  !o.unionOf.isEmpty

def isIntersection (o : ObjectType) : Bool :=
  !o.intersectionOf.isEmpty

def isConcrete (o : ObjectType) : Bool :=
  !o.isUnion && !o.isIntersection

end ObjectType

namespace TypeKind

def label : TypeKind → String
  | scalar _ => "scalar"
  | object _ => "object"
  | array _ => "array"
  | tuple _ => "tuple"

end TypeKind

/-- A tuple is named when it has elements and all of them have names. -/
def areNamed (elements : List TupleElement) : Bool :=
  !elements.isEmpty && elements.all fun e => e.name ≠ ""

/-- A cast that is allowed everywhere. -/
def Cast.free (source target : TypeId) : Cast :=
  ⟨source, target, true, true⟩

namespace TypeRecord

def bases (r : TypeRecord) : List TypeId :=
  match r.kind with
  | .scalar s => s.bases
  | .object o => o.bases
  | .array _ | .tuple _ => []

def scalar? (r : TypeRecord) : Option ScalarType :=
  match r.kind with
  | .scalar s => some s
  | _ => none

def object? (r : TypeRecord) : Option ObjectType :=
  match r.kind with
  | .object o => some o
  | _ => none

def isObject (r : TypeRecord) : Bool :=
  r.object?.isSome

/-- The pointers that a type declares itself. -/
def pointers (r : TypeRecord) : List Pointer :=
  match r.kind with
  | .object o => o.pointers
  | _ => []

/-- Scalars and objects have a place in the dependency order. -/
def isOrderable (r : TypeRecord) : Bool :=
  match r.kind with
  | .scalar _ | .object _ => true
  | .array _ | .tuple _ => false

/-- All ids that a record mentions, in the order of their declaration. -/
def references (r : TypeRecord) : List TypeId :=
  match r.kind with
  | .scalar s => s.bases ++ s.material.toList
  | .object o =>
    o.bases ++ o.unionOf ++ o.intersectionOf ++
      o.pointers.flatMap fun p => p.target :: p.linkProperties.map LinkProperty.target
  | .array element => [element]
  | .tuple elements => elements.map TupleElement.target

/-- The types that a record's representation is derived from. A scalar that
names itself as its material is its own representation. -/
def representedBy (r : TypeRecord) : List TypeId :=
  match r.kind with
  | .scalar s => s.material.toList.filter (· ≠ r.id)
  | .object _ => []
  | .array element => [element]
  | .tuple elements => elements.map TupleElement.target

end TypeRecord
end QueryShapes
