import QueryShapes.Text.Ident

namespace QueryShapes

/-- The identifier itself, then the identifier with the suffixes 2, 3 and so on. -/
def suffixed (ident : String) : Nat → String
  | 0 => ident
  | n + 1 => ident ++ "_" ++ toString (n + 2)

/-- The first of an identifier's spellings that is not taken. One of the first
`taken.length + 1` is free, since the spellings all differ. -/
def freeName (taken : List String) (ident : String) : String :=
  (((List.range (taken.length + 1)).map (suffixed ident)).find? (· ∉ taken)).getD ident

/-- Names for the values that follow those which took `taken`. -/
def memberNamesFrom (taken : List String) : List String → List String
  | [] => []
  | value :: rest =>
    let name := freeName taken (identOf value)
    name :: memberNamesFrom (name :: taken) rest

/-- The member names of an enum, one for each value. -/
def memberNames (values : List String) : List String :=
  memberNamesFrom [] values

end QueryShapes
