import QueryShapes.Document.Value

namespace QueryShapes

namespace Value

/-- The fault of a value that is not of the kind expected. A container is
refused at its first character, everything else after its last. -/
def wrongKind : Value → Fault
  | text l =>
    match l.text with
    | .ok _ => .mismatched
    | .error f => f
  | numeral n => n.readFault.getD .mismatched
  | broken f => f
  | null | flag _ | list _ _ | object _ _ => .mismatched

def readText : Value → Except Fault String
  | text l => l.text
  | v => .error v.wrongKind

def readFlag : Value → Except Fault Bool
  | flag b => .ok b
  | v => .error v.wrongKind

def readOptional {α : Type} (read : Value → Except Fault α) : Value → Except Fault (Option α)
  | null => .ok none
  | v => (read v).map some

def readList {α : Type} (read : Value → Except Fault α) : Value → Except Fault (List α)
  | list items fault => do
    let found ← items.mapM read
    match fault with
    | none => return found
    | some f => throw f
  | v => .error v.wrongKind

end Value

/-- A field of a record: its name, whether it may be absent, and how its value
changes the record read so far. -/
structure Field (α : Type) where
  name : String
  isRequired : Bool
  read : Value → α → Except Fault α

namespace Field

variable {α β : Type}

def required (name : String) (read : Value → Except Fault β) (set : β → α → α) : Field α :=
  ⟨name, true, fun v record => (read v).map (set · record)⟩

def defaulted (name : String) (read : Value → Except Fault β) (set : β → α → α) : Field α :=
  ⟨name, false, fun v record => (read v).map (set · record)⟩

end Field

/-- A record is written as an object, or as the list of its fields in order. -/
structure RecordFormat (α : Type) where
  blank : α
  fields : List (Field α)

namespace RecordFormat

variable {α : Type}

/-- Reads the members of an object. Unknown keys are skipped; a known key may
come once. Gives back the record and the keys found. -/
def readMembers (format : RecordFormat α) :
    List String → α → List (Literal × Value) → Except Fault (α × List String)
  | seen, record, [] => .ok (record, seen)
  | seen, record, (key, v) :: rest => do
    let key ← key.text
    match format.fields.find? (·.name = key) with
    | some field =>
      if key ∈ seen then throw .mismatched
      let record ← field.read v record
      readMembers format (key :: seen) record rest
    | none =>
      match v.skipFault with
      | none => readMembers format seen record rest
      | some f => throw f

/-- Reads the items of a list as the fields in order. Fields at the end may be
left off if they may be absent; no item may be left over. -/
def readItems (fault : Option Fault) : List (Field α) → α → List Value → Except Fault α
  | [], record, [] =>
    match fault with
    | none => .ok record
    | some f => .error f
  | [], _, _ :: _ => .error .malformed
  | field :: fields, record, [] =>
    match fault with
    | none => if field.isRequired then .error .mismatched else readItems fault fields record []
    | some f => .error f
  | field :: fields, record, v :: rest => do
    readItems fault fields (← field.read v record) rest

def read (format : RecordFormat α) : Value → Except Fault α
  | .object members fault => do
    let (record, seen) ← format.readMembers [] format.blank members
    match fault with
    | some f => throw f
    | none =>
      if format.fields.any fun field => field.isRequired && field.name ∉ seen then throw .mismatched
      return record
  | .list items fault => readItems fault format.fields format.blank items
  | v => .error v.wrongKind

end RecordFormat
end QueryShapes
