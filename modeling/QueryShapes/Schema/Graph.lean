import QueryShapes.Schema.Error

namespace QueryShapes

/-- Type records that refer to each other by id, in source order. -/
structure Graph where
  records : List TypeRecord
deriving DecidableEq, Repr

namespace Graph

def ids (g : Graph) : List TypeId :=
  g.records.map TypeRecord.id

def get? (g : Graph) (id : TypeId) : Option TypeRecord :=
  g.records.find? (·.id = id)

/-- Of records that share a name the last one is found. -/
def named? (g : Graph) (name : String) : Option TypeRecord :=
  g.records.reverse.find? (·.name = name)

def resolve (g : Graph) (referencing : String) (id : TypeId) : Except SchemaError TypeRecord :=
  match g.get? id with
  | some r => .ok r
  | none => .error (.unknownReference referencing id)

def contains (g : Graph) (id : TypeId) : Bool :=
  (g.get? id).isSome

def indexOf? (g : Graph) (id : TypeId) : Option Nat :=
  g.records.findIdx? (·.id = id)

def size (g : Graph) : Nat :=
  g.records.length

theorem mem_of_get? {g : Graph} {id : TypeId} {r : TypeRecord} (h : g.get? id = some r) : r ∈ g.records :=
  List.mem_of_find?_eq_some h

theorem id_of_get? {g : Graph} {id : TypeId} {r : TypeRecord} (h : g.get? id = some r) : r.id = id := by
  simpa using List.find?_some h

theorem get?_of_resolve {g : Graph} {name : String} {id : TypeId} {r : TypeRecord}
    (h : g.resolve name id = .ok r) : g.get? id = some r := by
  unfold resolve at h
  split at h
  · cases h
    assumption
  · cases h

end Graph
end QueryShapes
