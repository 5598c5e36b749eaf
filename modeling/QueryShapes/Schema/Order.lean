import QueryShapes.Schema.Search

namespace QueryShapes

/-- The ids of a graph's types, bases before what is based on them. -/
structure TypeOrder where
  ids : List TypeId
deriving DecidableEq, Repr

namespace TypeOrder

def size (o : TypeOrder) : Nat :=
  o.ids.length

def position? (o : TypeOrder) (id : TypeId) : Option Nat :=
  o.ids.findIdx? (· = id)

/-- The records of a graph in this order. Ids that the graph lacks are skipped. -/
def records (o : TypeOrder) (g : Graph) : List TypeRecord :=
  o.ids.filterMap g.get?

/-- The records of a graph with dependents before their bases. -/
def recordsReversed (o : TypeOrder) (g : Graph) : List TypeRecord :=
  o.ids.reverse.filterMap g.get?

end TypeOrder

/-- Orders scalars and objects by their bases alone: members of unions and
intersections may stand anywhere. Types are told apart by name. -/
def Graph.order (g : Graph) : Except SchemaError TypeOrder :=
  (g.postOrder TypeRecord.name TypeRecord.bases (g.records.filter TypeRecord.isOrderable) []).map
    fun done => ⟨done.map TypeRecord.id⟩

end QueryShapes
