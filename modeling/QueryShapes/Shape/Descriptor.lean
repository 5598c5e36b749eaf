import QueryShapes.Shape.Target
import QueryShapes.Text.Line

namespace QueryShapes

/-- A link property as it is emitted. -/
structure PropertyDescriptor where
  name : String
  type : TypeExpr
deriving Repr

/-- A pointer as it is emitted. -/
structure Descriptor where
  name : String
  kind : PointerKind
  cardinality : Cardinality
  target : Target
  properties : List PropertyDescriptor
deriving Repr

namespace Scope

/-- Computed pointers are links when they lead to objects. -/
def pointerTarget (s : Scope) (owner : String) (p : Pointer) : Except GenerationError Target :=
  match s.graph.resolve owner p.target with
  | .error e => .error (.schema e)
  | .ok r =>
    if p.isLink || (p.kind == .computable && r.isObject) then s.linkTarget owner p.target
    else ((s.typeExpr owner p.target).map .property).mapError .schema

def linkProperty (s : Scope) (owner : String) (p : LinkProperty) : Except GenerationError PropertyDescriptor :=
  ((s.typeExpr owner p.target).map (⟨p.name, ·⟩)).mapError .schema

/-- The descriptor of a pointer that the named type declares. -/
def describe (s : Scope) (owner : String) (p : Pointer) : Except GenerationError Descriptor := do
  let target ← s.pointerTarget owner p
  let properties ← p.linkProperties.mapM (s.linkProperty owner)
  return ⟨p.name, p.kind, p.cardinality, target, properties⟩

end Scope

namespace PropertyDescriptor

/-- Links need not set their properties. -/
def cardinality : Cardinality :=
  .atMostOne

def typeText (lib : ClientLibrary) (p : PropertyDescriptor) : String :=
  lib.propertyType p.type.text cardinality

end PropertyDescriptor

/-- The fields that all descriptors have. -/
def headFields (lib : ClientLibrary) (name : String) (kind : PointerKind) (cardinality : Cardinality) : List Line :=
  [.of ("kind: " ++ lib.kind kind ++ ","),
    .of ("name: " ++ quoted name ++ ","),
    .of ("cardinality: " ++ lib.cardinality cardinality ++ ",")]

def PropertyDescriptor.lines (lib : ClientLibrary) (p : PropertyDescriptor) : List Line :=
  [.of (memberKey p.name ++ ": \x7b")] ++
    nested (headFields lib p.name .property cardinality) ++
    [.of ("\x7d as " ++ p.typeText lib ++ ",")]

namespace Descriptor

def typeText (lib : ClientLibrary) (d : Descriptor) : String :=
  if d.target.isLink then lib.linkType d.target.typeText d.cardinality
  else lib.propertyType d.target.typeText d.cardinality

def propertyLines (lib : ClientLibrary) : List PropertyDescriptor → List Line
  | [] => []
  | properties => [.of "properties: \x7b"] ++ nested (properties.flatMap (·.lines lib)) ++ [.of "\x7d,"]

def fieldLines (lib : ClientLibrary) (d : Descriptor) : List Line :=
  headFields lib d.name d.kind d.cardinality ++
    (d.target.valueText?.toList.map fun value => .of ("target: " ++ value ++ ",")) ++
    propertyLines lib d.properties

/-- The accessor that gives the descriptor. -/
def getterLines (lib : ClientLibrary) (d : Descriptor) : List Line :=
  [.of ("get " ++ memberKey d.name ++ "() \x7b")] ++
    nested ([.of "return \x7b"] ++ nested (d.fieldLines lib) ++ [.of ("\x7d as " ++ d.typeText lib ++ ";")]) ++
    [.of "\x7d,"]

end Descriptor
end QueryShapes
