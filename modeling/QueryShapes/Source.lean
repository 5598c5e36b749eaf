import QueryShapes.Document.Snapshot

namespace QueryShapes

/-- Why a source gives no snapshot. -/
inductive SourceError
  | unavailable (detail : String)
  | query (detail : String)
deriving DecidableEq, Repr

def SourceError.message : SourceError → String
  | unavailable detail => "schema source unavailable: " ++ detail
  | query detail => "schema query failed: " ++ detail

/-- Where the types and casts of a schema come from. -/
structure Source where
  types : Except SourceError (List TypeRecord)
  casts : Except SourceError (List Cast) := .ok []

/-- The text of a file. A file that is missing, or whose bytes are not UTF-8,
cannot be read for the reason given. -/
def readText (reason : String) (bytes : Option ByteArray) : Except String String :=
  match bytes.bind String.fromUTF8? with
  | some text => .ok text
  | none => .error reason

namespace Source

/-- Types come first: casts are not asked for when there are none to be had. -/
def snapshot (source : Source) : Except SourceError Snapshot := do
  let types ← source.types
  let casts ← source.casts
  return ⟨types, casts⟩

def ofSnapshot (s : Snapshot) : Source where
  types := .ok s.types
  casts := .ok s.casts

/-- A source that knows no casts. -/
def ofTypes (types : List TypeRecord) : Source where
  types := .ok types

/-- The document at a path, given the text that was read there. -/
def ofDocument (path : String) (text : Except String String) : Source :=
  let loaded : Except SourceError Snapshot :=
    match text with
    | .error reason => .error (.unavailable (path ++ ": " ++ reason))
    | .ok text => (readSnapshot text).mapError fun e => .query (path ++ ": " ++ e.message)
  ⟨loaded.map Snapshot.types, loaded.map Snapshot.casts⟩

end Source
end QueryShapes
