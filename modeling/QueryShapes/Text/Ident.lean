namespace QueryShapes

/-- An identifier holds ASCII letters, ASCII digits and underscores. -/
def isIdentChar (c : Char) : Bool :=
  c.isAlphanum || c == '_'

/-- Writes one underscore for each run of other characters; the flag says that
the current run has its underscore already. -/
def collapseRuns : Bool → List Char → List Char
  | _, [] => []
  | inRun, c :: rest =>
    if isIdentChar c then c :: collapseRuns false rest
    else if inRun then collapseRuns true rest
    else '_' :: collapseRuns true rest

/-- An identifier is not empty and starts with no digit. -/
def guardHead : List Char → List Char
  | [] => ['_']
  | c :: rest => if c.isDigit then '_' :: c :: rest else c :: rest

/-- The identifier that stands for a text. Different texts may share one. -/
def identOf (s : String) : String :=
  String.ofList (guardHead (collapseRuns false s.toList))

end QueryShapes
