namespace QueryShapes

/-- The unit that defines the composites of all modules. -/
def baseUnit : String := "__base__.ts"

def indexUnit : String := "index.ts"

/-- The unit of the cast maps. -/
def castUnit : String := "modules/__typeutil__.ts"

/-- The parts of a module name between its separators, found from the left. -/
def moduleSegments : List Char → List (List Char)
  | ':' :: ':' :: rest => [] :: moduleSegments rest
  | c :: rest =>
    match moduleSegments rest with
    | segment :: segments => (c :: segment) :: segments
    | [] => [[c]]
  | [] => [[]]

/-- The path of a module's unit, as an import from the output root names it. -/
def moduleSpecifier (m : String) : String :=
  "modules/" ++ String.intercalate "/" ((moduleSegments m.toList).map String.ofList)

/-- The file that holds a module's unit. -/
def moduleUnit (m : String) : String :=
  moduleSpecifier m ++ ".ts"

/-- The way from a module's unit back to the output root, one step for each
directory the unit lies in. -/
def pathToRoot (m : String) : String :=
  String.join ((moduleSegments m.toList).map fun _ => "../")

end QueryShapes
