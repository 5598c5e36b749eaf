import QueryShapes.Shape.Descriptor

namespace QueryShapes

/-- An inherited part of a composite: all fields of another composite, or one
accessor of a base that has no composite. -/
inductive Member
  | spread (symbol : String)
  | getter (d : Descriptor)
deriving Repr

namespace Member

def isSpreadOf (symbol : String) : Member → Bool
  | spread s => s == symbol
  | getter _ => false

def isGetterOf (name : String) : Member → Bool
  | spread _ => false
  | getter d => d.name == name

end Member

/-- The fields of an object type. Later members override earlier ones. -/
structure Composite where
  inherited : List Member := []
  own : List Descriptor := []
deriving Repr

namespace Composite

/-- Drops the inherited accessor of a name that is defined again. -/
def forget (c : Composite) (name : String) : Composite :=
  { c with inherited := c.inherited.filter fun m => !m.isGetterOf name }

/-- Adds an inherited member in place of its earlier occurrence. -/
def add (c : Composite) : Member → Composite
  | .spread symbol =>
    { c with inherited := c.inherited.filter (fun m => !m.isSpreadOf symbol) ++ [.spread symbol] }
  | .getter d =>
    let c := c.forget d.name
    { c with inherited := c.inherited ++ [.getter d] }

def addOwn (c : Composite) (d : Descriptor) : Composite :=
  let c := c.forget d.name
  { c with own := c.own ++ [d] }

def ofMembers (inherited : List Member) (own : List Descriptor) : Composite :=
  own.foldl addOwn (inherited.foldl add {})

def memberLines (lib : ClientLibrary) : Member → List Line
  | .spread symbol => [.of ("..." ++ symbol ++ ",")]
  | .getter d => d.getterLines lib

/-- The statement that defines the composite under a symbol. -/
def lines (lib : ClientLibrary) (symbol : String) (c : Composite) : List Line :=
  let gap : List Line := if c.inherited.isEmpty || c.own.isEmpty then [] else [.blank]
  [.of ("const " ++ symbol ++ " = \x7b")] ++
    nested (c.inherited.flatMap (memberLines lib) ++ gap ++ c.own.flatMap (·.getterLines lib)) ++
    [.of "\x7d as const;", .blank]

end Composite
end QueryShapes
