import QueryShapes.Text.Line

namespace QueryShapes

/-- One generated file. Flags record which one-time parts it already has. -/
structure OutputUnit where
  head : List Line := []
  body : List Line := []
  flags : List String := []
deriving DecidableEq, Repr

namespace OutputUnit

def isMarked (u : OutputUnit) (flag : String) : Bool :=
  flag ∈ u.flags

def mark (u : OutputUnit) (flag : String) : OutputUnit :=
  if u.isMarked flag then u else { u with flags := u.flags ++ [flag] }

def addHead (u : OutputUnit) (lines : List Line) : OutputUnit :=
  { u with head := u.head ++ lines }

def addBody (u : OutputUnit) (lines : List Line) : OutputUnit :=
  { u with body := u.body ++ lines }

def render (u : OutputUnit) : String :=
  renderLines u.head ++ "\n" ++ renderLines u.body

end OutputUnit

/-- The units of a run by path, in the order of their creation. -/
structure OutputTree where
  units : List (String × OutputUnit) := []
deriving DecidableEq, Repr

namespace OutputTree

def updateUnits (path : String) (f : OutputUnit → OutputUnit) :
    List (String × OutputUnit) → List (String × OutputUnit)
  | [] => [(path, f {})]
  | (p, u) :: rest => if p = path then (p, f u) :: rest else (p, u) :: updateUnits path f rest

/-- Changes the unit at a path, which is created empty when there is none. -/
def update (t : OutputTree) (path : String) (f : OutputUnit → OutputUnit) : OutputTree :=
  ⟨updateUnits path f t.units⟩

def get? (t : OutputTree) (path : String) : Option OutputUnit :=
  t.units.lookup path

def paths (t : OutputTree) : List String :=
  t.units.map Prod.fst

def contains (t : OutputTree) (path : String) : Bool :=
  path ∈ t.paths

def size (t : OutputTree) : Nat :=
  t.units.length

/-- The files that the tree stands for, in the order of creation. -/
def files (t : OutputTree) : List (String × String) :=
  t.units.map fun (path, u) => (path, u.render)

/-- All units in one text, each under a line with its path. -/
def overview (t : OutputTree) : String :=
  String.join (t.files.map fun (path, text) => ">>> " ++ path ++ "\n" ++ text ++ "\n")

end OutputTree
end QueryShapes
