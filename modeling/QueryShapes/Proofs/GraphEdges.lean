import QueryShapes.Schema.Graph
import Mathlib.Data.List.Nodup
import Mathlib.Logic.Relation

namespace QueryShapes.Graph

/-- One of the ids that a record lists is that of another record. -/
def Leads (g : Graph) (edges : TypeRecord → List TypeId) (r s : TypeRecord) : Prop :=
  ∃ id ∈ edges r, g.get? id = some s

/-- All that the records list is there. -/
def IsClosed (g : Graph) (edges : TypeRecord → List TypeId) : Prop :=
  ∀ r ∈ g.records, ∀ id ∈ edges r, ∃ s, g.get? id = some s

theorem Leads.mem {g : Graph} {edges : TypeRecord → List TypeId} {r s : TypeRecord}
    (edge : g.Leads edges r s) : s ∈ g.records := by
  obtain ⟨id, _, found⟩ := edge
  exact mem_of_get? found

theorem mem_of_reflTransGen {g : Graph} {edges : TypeRecord → List TypeId} {r s : TypeRecord}
    (path : Relation.ReflTransGen (g.Leads edges) r s) (member : r ∈ g.records) : s ∈ g.records := by
  cases path with
  | refl => exact member
  | tail _ last => exact last.mem

theorem resolve_eq_ok_iff {g : Graph} {name : String} {id : TypeId} {r : TypeRecord} :
    g.resolve name id = .ok r ↔ g.get? id = some r := by
  unfold resolve
  cases g.get? id with
  | none => simp
  | some s => simp

theorem resolve_eq_error_iff {g : Graph} {name : String} {id : TypeId} {e : SchemaError} :
    g.resolve name id = .error e ↔ g.get? id = none ∧ e = .unknownReference name id := by
  unfold resolve
  cases g.get? id with
  | none => simp [eq_comm]
  | some s => simp

theorem contains_iff {g : Graph} {id : TypeId} : g.contains id = true ↔ ∃ r ∈ g.records, r.id = id := by
  simp [contains, get?, List.find?_isSome]

theorem get?_exists_iff {g : Graph} {id : TypeId} : (∃ r, g.get? id = some r) ↔ ∃ r ∈ g.records, r.id = id := by
  rw [← Option.isSome_iff_exists]
  exact contains_iff

/-- With distinct ids a record is found under its own id. -/
theorem get?_of_mem {g : Graph} (distinct : g.ids.Nodup) {r : TypeRecord} (member : r ∈ g.records) :
    g.get? r.id = some r := by
  obtain ⟨s, found⟩ := get?_exists_iff.mpr ⟨r, member, rfl⟩
  have same : s = r := List.inj_on_of_nodup_map distinct (mem_of_get? found) member (id_of_get? found)
  rw [found, same]

end QueryShapes.Graph
