namespace QueryShapes

/-- Why a document cannot be read: its text is not JSON, or ends too early, or
is JSON of another shape than expected. -/
inductive Fault
  | malformed
  | truncated
  | mismatched
deriving DecidableEq, Repr

end QueryShapes
