import QueryShapes.Document.Row

namespace QueryShapes

/-- Why a document gives no records. The owner of a field is a type, or a
pointer written after the type that declares it. -/
inductive DocumentError
  | json (fault : Fault)
  | invalidAttribute (owner field value : String)
  | missingAttribute (owner field : String)
deriving DecidableEq, Repr

def DocumentError.message : DocumentError → String
  | json _ => "JSON error: "
  | invalidAttribute owner field value =>
    "invalid value '" ++ value ++ "' for attribute '" ++ field ++ "' on type '" ++ owner ++ "'"
  | missingAttribute owner field =>
    "missing required attribute '" ++ field ++ "' on type '" ++ owner ++ "'"

/-- Whether a cardinality word stands for more than one value. -/
def isMany? : String → Option Bool
  | "ONE" => some false
  | "MANY" => some true
  | _ => none

namespace PointerRow

def toPointer (owner : String) (row : PointerRow) : Except DocumentError Pointer :=
  let element := owner ++ "." ++ row.name
  match PointerKind.ofMarker? row.kind with
  | none => .error (.invalidAttribute element "kind" row.kind)
  | some kind =>
    match isMany? row.cardinality with
    | none => .error (.invalidAttribute element "cardinality" row.cardinality)
    | some isMany =>
      .ok {
        name := row.name
        kind := kind
        cardinality := Cardinality.ofFlags isMany row.required
        target := row.target
        expr := row.expr
        linkProperties := row.pointers.getD [] }

end PointerRow

namespace TypeRow

/-- The kind that a row claims. Fields of other kinds play no part. -/
def toKind (row : TypeRow) : Except DocumentError TypeKind :=
  match row.kind with
  | "scalar" => .ok (.scalar ⟨row.isAbstract, row.bases, row.enumValues.getD [], row.material⟩)
  | "object" =>
    (row.pointers.mapM (PointerRow.toPointer row.name)).map fun pointers =>
      .object ⟨row.isAbstract, row.bases, row.unionOf, row.intersectionOf, pointers⟩
  | "array" =>
    match row.arrayElement with
    | some element => .ok (.array element)
    | none => .error (.missingAttribute row.name "array_element_id")
  | "tuple" => .ok (.tuple row.tupleElements)
  | other => .error (.invalidAttribute row.name "kind" other)

def toRecord (row : TypeRow) : Except DocumentError TypeRecord :=
  row.toKind.map (⟨row.id, row.name, ·⟩)

end TypeRow

def SnapshotRow.toSnapshot (row : SnapshotRow) : Except DocumentError Snapshot :=
  (row.types.mapM TypeRow.toRecord).map (⟨·, row.casts⟩)

/-- The records of a document that is a list of types. -/
def readTypes (text : String) : Except DocumentError (List TypeRecord) :=
  match (Document.ofText text).decode (Value.readList typeFormat.read) with
  | .error f => .error (.json f)
  | .ok rows => rows.mapM TypeRow.toRecord

def readSnapshot (text : String) : Except DocumentError Snapshot :=
  match (Document.ofText text).decode snapshotFormat.read with
  | .error f => .error (.json f)
  | .ok row => row.toSnapshot

end QueryShapes
