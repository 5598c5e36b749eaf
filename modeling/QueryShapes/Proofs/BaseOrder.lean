import QueryShapes.Proofs.GraphBuild
import QueryShapes.Schema.Order

namespace QueryShapes
open Relation

namespace Graph

/-- The second record is a direct base of the first. -/
def IsBase (g : Graph) : TypeRecord → TypeRecord → Prop :=
  g.Leads TypeRecord.bases

/-- The base relation between ids. -/
def IsBaseId (g : Graph) (id base : TypeId) : Prop :=
  ∃ r, g.get? id = some r ∧ base ∈ r.bases

theorem build_eq_ok_iff {records : List TypeRecord} {g : Graph} :
    build records = .ok g ↔ g = ⟨records⟩ ∧ IsWellFormed records := by
  rcases build_outcome records with ⟨built, wellFormed⟩ | ⟨e, refused, problem⟩
  · rw [built]
    simp [wellFormed, eq_comm]
  · rw [refused]
    simp [problem.not_isWellFormed]

theorem isWellFormed_of_build {records : List TypeRecord} {g : Graph} (built : build records = .ok g) :
    IsWellFormed g.records := by
  obtain ⟨rfl, wellFormed⟩ := build_eq_ok_iff.mp built
  exact wellFormed

theorem IsWellFormed.ids_nodup {g : Graph} (wellFormed : IsWellFormed g.records) : g.ids.Nodup :=
  wellFormed.distinct

theorem IsWellFormed.isClosed_bases {g : Graph} (wellFormed : IsWellFormed g.records) :
    g.IsClosed TypeRecord.bases := by
  intro r member id base
  exact get?_exists_iff.mpr (wellFormed.closed r member id (TypeRecord.mentions_of_mem_bases base))

theorem isOrderable_of_mem_bases {r : TypeRecord} {id : TypeId} (base : id ∈ r.bases) : r.isOrderable = true := by
  unfold TypeRecord.bases at base
  unfold TypeRecord.isOrderable
  split at base <;> simp_all

theorem order_outcome {g : Graph} (wellFormed : IsWellFormed g.records) :
    (∃ done, g.order = .ok ⟨done.map TypeRecord.id⟩ ∧ PostOrdered g TypeRecord.name TypeRecord.bases done ∧
      ∀ r ∈ g.records, r.isOrderable = true → r.name ∈ done.map TypeRecord.name) ∨
      ∃ e, g.order = .error e ∧ ClosesCycle g TypeRecord.name TypeRecord.bases e := by
  have roots : ∀ r ∈ g.records.filter TypeRecord.isOrderable, r ∈ g.records := fun r => List.mem_of_mem_filter
  unfold order
  cases search : g.postOrder TypeRecord.name TypeRecord.bases (g.records.filter TypeRecord.isOrderable) [] with
  | ok done =>
    obtain ⟨ordered, _, covers⟩ := postOrder_completes search roots .nil
    refine Or.inl ⟨done, rfl, ordered, fun r member orderable => ?_⟩
    exact covers r (List.mem_filter.mpr ⟨member, orderable⟩)
  | error e => exact Or.inr ⟨e, rfl, postOrder_closesCycle search roots wellFormed.isClosed_bases⟩

theorem keyed_of_names_nodup {g : Graph} (names : (g.records.map TypeRecord.name).Nodup) :
    ∀ r ∈ g.records, ∀ s ∈ g.records, r.name = s.name → r = s :=
  fun _ r _ s same => List.inj_on_of_nodup_map names r s same

/-- In an ordered graph of distinct names bases never lead in a circle. -/
theorem acc_isBase_of_order {g : Graph} (wellFormed : IsWellFormed g.records)
    (names : (g.records.map TypeRecord.name).Nodup) {o : TypeOrder} (ordered : g.order = .ok o)
    {r : TypeRecord} (member : r ∈ g.records) : Acc (fun s r => g.IsBase r s) r := by
  rcases order_outcome wellFormed with ⟨done, _, postOrdered, covers⟩ | ⟨e, failed, _⟩
  · have keyed := keyed_of_names_nodup names
    by_cases orderable : r.isOrderable = true
    · obtain ⟨s, inDone, sameName⟩ := List.mem_map.mp (covers r member orderable)
      rw [keyed s (postOrdered.mem inDone) r member sameName] at inDone
      exact postOrdered.acc keyed inDone
    · refine ⟨_, fun s edge => ?_⟩
      obtain ⟨id, base, _⟩ := edge
      exact absurd (isOrderable_of_mem_bases base) orderable
  · rw [ordered] at failed
    cases failed

theorem exists_transGen_isBase {g : Graph} (closed : g.IsClosed TypeRecord.bases) {id id' : TypeId}
    (path : TransGen g.IsBaseId id id') :
    ∃ r s, g.get? id = some r ∧ g.get? id' = some s ∧ TransGen g.IsBase r s := by
  induction path with
  | single edge =>
    obtain ⟨r, found, base⟩ := edge
    obtain ⟨s, found'⟩ := closed r (mem_of_get? found) _ base
    exact ⟨r, s, found, found', .single ⟨_, base, found'⟩⟩
  | tail _ edge ih =>
    obtain ⟨r, s, found, found', path⟩ := ih
    obtain ⟨s', again, base⟩ := edge
    cases found'.symm.trans again
    obtain ⟨t, found''⟩ := closed s (mem_of_get? found') _ base
    exact ⟨r, t, found, found'', path.tail ⟨_, base, found''⟩⟩

theorem transGen_isBaseId {g : Graph} (distinct : g.ids.Nodup) {r s : TypeRecord} (member : r ∈ g.records)
    (path : TransGen g.IsBase r s) : TransGen g.IsBaseId r.id s.id := by
  have edge {a b : TypeRecord} (here : a ∈ g.records) (base : g.IsBase a b) : g.IsBaseId a.id b.id := by
    obtain ⟨id, listed, found⟩ := base
    exact ⟨a, get?_of_mem distinct here, id_of_get? found ▸ listed⟩
  induction path with
  | single base => exact .single (edge member base)
  | tail before base ih => exact ih.tail (edge (mem_of_reflTransGen before.to_reflTransGen member) base)

end Graph

namespace TypeOrder

/-- The record whose id stands at a position. -/
def at? (o : TypeOrder) (g : Graph) (position : Nat) : Option TypeRecord :=
  o.ids[position]?.bind g.get?

/-- The ids are distinct and so are the names that they stand for; every scalar and
object is there by name, and bases by name stand before what is based on them. -/
structure ListsBasesFirst (o : TypeOrder) (g : Graph) : Prop where
  ids_nodup : o.ids.Nodup
  resolves : ∀ p, p < o.ids.length → ∃ r, o.at? g p = some r
  names_distinct : ∀ p q r s, o.at? g p = some r → o.at? g q = some s → r.name = s.name → p = q
  complete : ∀ r ∈ g.records, r.isOrderable = true → ∃ p s, o.at? g p = some s ∧ s.name = r.name
  bases_before : ∀ p r, o.at? g p = some r → ∀ id ∈ r.bases, ∃ base, g.get? id = some base ∧
    ∃ q s, q < p ∧ o.at? g q = some s ∧ s.name = base.name

end TypeOrder

namespace Graph

theorem at?_map_id {g : Graph} (distinct : g.ids.Nodup) {done : List TypeRecord}
    (inGraph : ∀ r ∈ done, r ∈ g.records) (p : Nat) :
    TypeOrder.at? ⟨done.map TypeRecord.id⟩ g p = done[p]? := by
  unfold TypeOrder.at?
  rw [List.getElem?_map]
  cases here : done[p]? with
  | none => rfl
  | some r => exact get?_of_mem distinct (inGraph r (List.mem_of_getElem? here))

theorem PostOrdered.listsBasesFirst {g : Graph} (distinct : g.ids.Nodup) {done : List TypeRecord}
    (ordered : PostOrdered g TypeRecord.name TypeRecord.bases done)
    (covers : ∀ r ∈ g.records, r.isOrderable = true → r.name ∈ done.map TypeRecord.name) :
    TypeOrder.ListsBasesFirst ⟨done.map TypeRecord.id⟩ g := by
  have inGraph : ∀ r ∈ done, r ∈ g.records := fun r => ordered.mem
  have names := ordered.keys_nodup
  constructor
  · refine List.Nodup.map_on (fun r here s there same => ?_) names.of_map
    exact keyed_of_ids_nodup distinct r (inGraph r here) s (inGraph s there) same
  · intro p bound
    rw [at?_map_id distinct inGraph]
    exact ⟨_, List.getElem?_eq_getElem (by simpa using bound)⟩
  · intro p q r s atP atQ sameName
    rw [at?_map_id distinct inGraph] at atP atQ
    have bound : p < (done.map TypeRecord.name).length := by
      rw [List.length_map]
      exact (List.getElem?_eq_some_iff.mp atP).1
    refine (List.getElem?_inj bound names).mp ?_
    rw [List.getElem?_map, List.getElem?_map, atP, atQ]
    simp [sameName]
  · intro r member orderable
    obtain ⟨s, inDone, sameName⟩ := List.mem_map.mp (covers r member orderable)
    obtain ⟨p, atP⟩ := List.getElem?_of_mem inDone
    exact ⟨p, s, (at?_map_id distinct inGraph p).trans atP, sameName⟩
  · intro p r atP id base
    rw [at?_map_id distinct inGraph] at atP
    obtain ⟨bound, here⟩ := List.getElem?_eq_some_iff.mp atP
    have parts : done = done.take p ++ r :: done.drop (p + 1) := by
      rw [← here, ← List.drop_eq_getElem_cons bound, List.take_append_drop]
    obtain ⟨s, found, before⟩ := ordered.edge_before parts base
    obtain ⟨t, inTake, sameName⟩ := List.mem_map.mp before
    obtain ⟨q, atQ⟩ := List.getElem?_of_mem inTake
    obtain ⟨below, _⟩ := List.getElem?_eq_some_iff.mp atQ
    have less : q < p := by
      rw [List.length_take] at below
      omega
    rw [List.getElem?_take_of_lt less] at atQ
    exact ⟨s, found, q, t, less, (at?_map_id distinct inGraph q).trans atQ, sameName⟩

/-- The error names the two ends of a chain of bases, where the first end has the
name of a base of the last. -/
inductive BaseCircle (g : Graph) : SchemaError → Prop
  | intro {first last base} : first ∈ g.records → ReflTransGen g.IsBase first last → g.IsBase last base →
      base.name = first.name → BaseCircle g (.dependencyCycle first.name last.name)

theorem ClosesCycle.baseCircle {g : Graph} {e : SchemaError}
    (closes : ClosesCycle g TypeRecord.name TypeRecord.bases e) : BaseCircle g e := by
  obtain ⟨member, path, edge, sameName⟩ := closes
  rw [← sameName]
  exact .intro member path edge sameName.symm

/-- A built graph is either ordered with bases first or refused for a chain of bases
that comes back to a name. With distinct names it is refused exactly when the base
relation has a cycle. -/
theorem order_lists_bases_or_closes {records : List TypeRecord} {g : Graph} (built : build records = .ok g) :
    ((∃ o, g.order = .ok o ∧ o.ListsBasesFirst g) ∨ ∃ e, g.order = .error e ∧ BaseCircle g e) ∧
      ((g.records.map TypeRecord.name).Nodup →
        ((∃ e, g.order = .error e) ↔ ∃ id, TransGen g.IsBaseId id id)) := by
  obtain ⟨rfl, wellFormed⟩ := build_eq_ok_iff.mp built
  have distinct : ids ⟨records⟩ |>.Nodup := wellFormed.distinct
  constructor
  · rcases order_outcome (g := ⟨records⟩) wellFormed with ⟨done, ordered, postOrdered, covers⟩ | ⟨e, failed, closes⟩
    · exact Or.inl ⟨_, ordered, postOrdered.listsBasesFirst distinct covers⟩
    · exact Or.inr ⟨e, failed, closes.baseCircle⟩
  · intro names
    constructor
    · rintro ⟨e, failed⟩
      rcases order_outcome (g := ⟨records⟩) wellFormed with ⟨done, ordered, _⟩ | ⟨e', _, closes⟩
      · rw [ordered] at failed
        cases failed
      · obtain ⟨first, last, _, member, _, path, edge⟩ := closes.circle (keyed_of_names_nodup names)
        exact ⟨first.id, transGen_isBaseId distinct member (TransGen.tail' path edge)⟩
    · rintro ⟨id, circle⟩
      obtain ⟨r, s, found, found', circle⟩ := exists_transGen_isBase wellFormed.isClosed_bases circle
      cases found.symm.trans found'
      cases ordered : Graph.order ⟨records⟩ with
      | error e => exact ⟨e, rfl⟩
      | ok o =>
        have acc := acc_isBase_of_order wellFormed names ordered (mem_of_get? found)
        exact absurd circle (not_transGen_of_acc acc)

/-- Two types that are based on each other. -/
def mutualBases : List TypeRecord :=
  [⟨⟨"a"⟩, "m::A", .object ⟨false, [⟨"b"⟩], [], [], []⟩⟩, ⟨⟨"b"⟩, "m::B", .object ⟨false, [⟨"a"⟩], [], [], []⟩⟩]

theorem order_of_mutualBases :
    build mutualBases = .ok ⟨mutualBases⟩ ∧ (mutualBases.map TypeRecord.name).Nodup ∧
      ((∃ o, order ⟨mutualBases⟩ = .ok o ∧ o.ListsBasesFirst ⟨mutualBases⟩) ∨
        ∃ e, order ⟨mutualBases⟩ = .error e ∧ BaseCircle ⟨mutualBases⟩ e) ∧
      ((∃ e, order ⟨mutualBases⟩ = .error e) ↔ ∃ id, TransGen (IsBaseId ⟨mutualBases⟩) id id) := by
  have built : build mutualBases = .ok ⟨mutualBases⟩ := by cbv
  have names : (mutualBases.map TypeRecord.name).Nodup := by decide
  obtain ⟨outcome, circles⟩ := order_lists_bases_or_closes built
  exact ⟨built, names, outcome, circles names⟩

end Graph
end QueryShapes
