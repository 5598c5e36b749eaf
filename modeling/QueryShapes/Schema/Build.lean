import QueryShapes.Schema.Search

namespace QueryShapes.Graph

/-- Refuses the first record whose id came before. -/
def checkDistinct (seen : List TypeId) : List TypeRecord → Except SchemaError Unit
  | [] => .ok ()
  | r :: rest =>
    if r.id ∈ seen then .error (.duplicateDefinition r.id r.name)
    else checkDistinct (r.id :: seen) rest

/-- Only scalars and objects bear names that a schema declares. -/
def checkName (r : TypeRecord) : Except SchemaError Unit :=
  if r.isOrderable then r.qualifiedName.map fun _ => () else .ok ()

def checkReferences (g : Graph) (r : TypeRecord) : Except SchemaError Unit :=
  match r.references.find? fun id => !g.contains id with
  | some missing => .error (.unknownReference r.name missing)
  | none => .ok ()

def checkRecords (g : Graph) : List TypeRecord → Except SchemaError Unit
  | [] => .ok ()
  | r :: rest => do
    checkName r
    checkReferences g r
    checkRecords g rest

/-- Refuses types whose representations are derived from each other. -/
def checkRepresentations (g : Graph) : Except SchemaError Unit :=
  (g.postOrder TypeRecord.id TypeRecord.representedBy g.records []).map fun _ => ()

/-- The graph of a list of records. Names and references are checked record by
record, representations only after all of them. -/
def build (records : List TypeRecord) : Except SchemaError Graph := do
  checkDistinct [] records
  let g : Graph := ⟨records⟩
  checkRecords g records
  checkRepresentations g
  return g

end QueryShapes.Graph
