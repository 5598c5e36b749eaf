import QueryShapes.Text.Ident

namespace QueryShapes

/-- A type's name inside its module. -/
structure QualifiedName where
  moduleName : String
  localName : String
deriving DecidableEq, Repr

/-- A text that does not split into a module and a local name. -/
structure InvalidName where
  name : String
deriving DecidableEq, Repr

def InvalidName.message (e : InvalidName) : String :=
  "invalid qualified name '" ++ e.name ++ "': expected 'module::local'"

/-- The parts around the last separator. Separators may overlap, so of three
colons in a row the first belongs to the left part. -/
def splitLast : List Char → Option (List Char × List Char)
  | [] => none
  | c :: rest =>
    match splitLast rest with
    | some (left, right) => some (c :: left, right)
    | none =>
      match c, rest with
      | ':', ':' :: right => some ([], right)
      | _, _ => none

namespace QualifiedName

def parse (s : String) : Except InvalidName QualifiedName :=
  match splitLast s.toList with
  | some (left, right) =>
    if left = [] ∨ right = [] then .error ⟨s⟩
    else .ok ⟨String.ofList left, String.ofList right⟩
  | none => .error ⟨s⟩

def text (q : QualifiedName) : String :=
  q.moduleName ++ "::" ++ q.localName

def moduleIdent (q : QualifiedName) : String :=
  identOf q.moduleName

def localIdent (q : QualifiedName) : String :=
  identOf q.localName

/-- The identifier of a type among the types of all modules. -/
def symbol (q : QualifiedName) : String :=
  identOf q.text

/-- A name belongs to its own module and to every module enclosing that. -/
def inModule (q : QualifiedName) (m : String) : Bool :=
  q.moduleName == m || (m ++ "::").toList.isPrefixOf q.moduleName.toList

/-- Names sort by module, then by local name, both by code points. -/
def le (p q : QualifiedName) : Bool :=
  p.moduleName < q.moduleName || (p.moduleName == q.moduleName && p.localName ≤ q.localName)

def sort (names : List QualifiedName) : List QualifiedName :=
  names.mergeSort le

end QualifiedName
end QueryShapes
