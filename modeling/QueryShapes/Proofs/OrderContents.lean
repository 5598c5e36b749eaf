import QueryShapes.Proofs.BaseOrder
import QueryShapes.Proofs.Outcome

namespace QueryShapes

/-- The ids of an order are those of the scalars and objects of a graph. -/
def TypeOrder.IsExact (o : TypeOrder) (g : Graph) : Prop :=
  ∀ id, id ∈ o.ids ↔ ∃ r ∈ g.records, r.id = id ∧ r.isOrderable = true

namespace Graph

/-- The records that an order lists. Every scalar and object is there by name, while an
array or a tuple comes in only as a base. -/
structure IsListing (g : Graph) (done : List TypeRecord) : Prop where
  ordered : PostOrdered g TypeRecord.name TypeRecord.bases done
  covers : ∀ r ∈ g.records, r.isOrderable = true → r.name ∈ done.map TypeRecord.name
  origin : ∀ r ∈ done, r.isOrderable = true ∨ ∃ s ∈ done, g.IsBase s r

theorem exists_listing {g : Graph} {o : TypeOrder} (ordered : g.order = .ok o) :
    ∃ done, g.IsListing done ∧ o = ⟨done.map TypeRecord.id⟩ := by
  obtain ⟨done, search, rfl⟩ := map_eq_ok_iff.mp ordered
  obtain ⟨postOrdered, _, covers⟩ := postOrder_completes search (fun _ => List.mem_of_mem_filter) .nil
  refine ⟨done, ⟨postOrdered, fun r member orderable => ?_, fun r member => ?_⟩, rfl⟩
  · exact covers r (List.mem_filter.mpr ⟨member, orderable⟩)
  · rcases (postOrder_origin search).2 r member with early | root | edge
    · cases early
    · exact Or.inl (List.mem_filter.mp root).2
    · exact Or.inr edge

namespace IsListing

variable {g : Graph} {done : List TypeRecord} (listing : g.IsListing done) (distinct : g.ids.Nodup)
include listing

theorem name_inj {r s : TypeRecord} (here : r ∈ done) (there : s ∈ done) (sameName : r.name = s.name) : r = s :=
  List.inj_on_of_nodup_map listing.ordered.keys_nodup here there sameName

/-- A scalar or object is left out only for a listed type of its name. -/
theorem mem_or_namesake {r : TypeRecord} (member : r ∈ g.records) (orderable : r.isOrderable = true) :
    r ∈ done ∨ ∃ s ∈ done, s ≠ r ∧ s.name = r.name := by
  obtain ⟨s, inDone, sameName⟩ := List.mem_map.mp (listing.covers r member orderable)
  by_cases same : s = r
  · exact Or.inl (same ▸ inDone)
  · exact Or.inr ⟨s, inDone, same, sameName⟩

include distinct

theorem id_mem_iff {r : TypeRecord} (member : r ∈ g.records) : r.id ∈ done.map TypeRecord.id ↔ r ∈ done := by
  constructor
  · intro listed
    obtain ⟨s, inDone, sameId⟩ := List.mem_map.mp listed
    exact keyed_of_ids_nodup distinct s (listing.ordered.mem inDone) r member sameId ▸ inDone
  · exact List.mem_map_of_mem

theorem isExact_iff_forall :
    TypeOrder.IsExact ⟨done.map TypeRecord.id⟩ g ↔ ∀ r ∈ g.records, r ∈ done ↔ r.isOrderable = true := by
  constructor
  · intro exact r member
    rw [← listing.id_mem_iff distinct member]
    refine (exact r.id).trans ⟨?_, fun orderable => ⟨r, member, rfl, orderable⟩⟩
    rintro ⟨s, member', sameId, orderable⟩
    exact keyed_of_ids_nodup distinct s member' r member sameId ▸ orderable
  · intro same id
    constructor
    · intro listed
      obtain ⟨r, inDone, rfl⟩ := List.mem_map.mp listed
      have member := listing.ordered.mem inDone
      exact ⟨r, member, rfl, (same r member).mp inDone⟩
    · rintro ⟨r, member, rfl, orderable⟩
      exact List.mem_map_of_mem ((same r member).mpr orderable)

/-- Nothing else spoils an order than namesakes among scalars and objects, and listed types
that are neither. -/
theorem isExact_iff :
    TypeOrder.IsExact ⟨done.map TypeRecord.id⟩ g ↔
      ((g.records.filter TypeRecord.isOrderable).map TypeRecord.name).Nodup ∧
        ∀ r ∈ done, r.isOrderable = true := by
  rw [listing.isExact_iff_forall distinct]
  constructor
  · intro same
    refine ⟨?_, fun r inDone => (same r (listing.ordered.mem inDone)).mp inDone⟩
    refine List.Nodup.map_on (fun r here s there sameName => ?_) (List.Nodup.filter _ distinct.of_map)
    obtain ⟨here, orderable⟩ := List.mem_filter.mp here
    obtain ⟨there, orderable'⟩ := List.mem_filter.mp there
    exact listing.name_inj ((same r here).mpr orderable) ((same s there).mpr orderable') sameName
  · rintro ⟨names, only⟩ r member
    refine ⟨only r, fun orderable => ?_⟩
    rcases listing.mem_or_namesake member orderable with inDone | ⟨s, inDone, other, sameName⟩
    · exact inDone
    · have inFilter : s ∈ g.records.filter TypeRecord.isOrderable :=
        List.mem_filter.mpr ⟨listing.ordered.mem inDone, only s inDone⟩
      have inFilter' := List.mem_filter.mpr ⟨member, orderable⟩
      exact absurd (List.inj_on_of_nodup_map names inFilter inFilter' sameName) other

/-- Among types that differ by name, bases decide. -/
theorem isExact_iff_of_names (names : (g.records.map TypeRecord.name).Nodup) :
    TypeOrder.IsExact ⟨done.map TypeRecord.id⟩ g ↔
      ∀ r ∈ g.records, ∀ base, g.IsBase r base → base.isOrderable = true := by
  have keyed := keyed_of_names_nodup names
  have orderableNames : ((g.records.filter TypeRecord.isOrderable).map TypeRecord.name).Nodup :=
    names.sublist (List.filter_sublist.map _)
  rw [listing.isExact_iff distinct, and_iff_right orderableNames]
  constructor
  · intro only r member base edge
    have ⟨_, listed, _⟩ := edge
    rcases listing.mem_or_namesake member (isOrderable_of_mem_bases listed) with
      inDone | ⟨s, inDone, other, sameName⟩
    · exact only base (listing.ordered.mem_of_leads keyed inDone edge)
    · exact absurd (keyed s (listing.ordered.mem inDone) r member sameName) other
  · intro bases r inDone
    rcases listing.origin r inDone with orderable | ⟨s, inDone', edge⟩
    · exact orderable
    · exact bases s (listing.ordered.mem inDone') r edge

end IsListing

/-- An order lists every id once. It leaves out a scalar or object only for a listed type of
the same name, and adds other types only as bases of listed ones. So it is exact just when
neither happens; with distinct names that is when all bases are scalars and objects. -/
theorem order_isExact_iff {records : List TypeRecord} {g : Graph} {o : TypeOrder} (built : build records = .ok g)
    (ordered : g.order = .ok o) :
    o.ids.Nodup ∧
      (∀ r ∈ g.records, r.isOrderable = true → r.id ∉ o.ids →
        ∃ s ∈ g.records, s.id ∈ o.ids ∧ s ≠ r ∧ s.name = r.name) ∧
      (∀ id ∈ o.ids, ∃ r, g.get? id = some r ∧
        (r.isOrderable = true ∨ ∃ s ∈ g.records, s.id ∈ o.ids ∧ g.IsBase s r)) ∧
      (o.IsExact g ↔ ((g.records.filter TypeRecord.isOrderable).map TypeRecord.name).Nodup ∧
        ∀ r ∈ g.records, r.id ∈ o.ids → r.isOrderable = true) ∧
      ((g.records.map TypeRecord.name).Nodup →
        (o.IsExact g ↔ ∀ r ∈ g.records, ∀ base, g.IsBase r base → base.isOrderable = true)) := by
  obtain ⟨rfl, wellFormed⟩ := build_eq_ok_iff.mp built
  have distinct : ids ⟨records⟩ |>.Nodup := wellFormed.distinct
  obtain ⟨done, listing, rfl⟩ := exists_listing ordered
  refine ⟨(listing.ordered.listsBasesFirst distinct listing.covers).ids_nodup,
    fun r member orderable unlisted => ?_, fun id listed => ?_, ?_, listing.isExact_iff_of_names distinct⟩
  · rcases listing.mem_or_namesake member orderable with inDone | ⟨s, inDone, other, sameName⟩
    · exact absurd (List.mem_map_of_mem inDone) unlisted
    · exact ⟨s, listing.ordered.mem inDone, List.mem_map_of_mem inDone, other, sameName⟩
  · obtain ⟨r, inDone, rfl⟩ := List.mem_map.mp listed
    refine ⟨r, get?_of_mem distinct (listing.ordered.mem inDone), (listing.origin r inDone).imp_right ?_⟩
    rintro ⟨s, inDone', edge⟩
    exact ⟨s, listing.ordered.mem inDone', List.mem_map_of_mem inDone', edge⟩
  · rw [listing.isExact_iff distinct]
    refine and_congr_right fun _ => ⟨fun only r member listed => ?_, fun only r inDone => ?_⟩
    · exact only r ((listing.id_mem_iff distinct member).mp listed)
    · exact only r (listing.ordered.mem inDone) (List.mem_map_of_mem inDone)

namespace Namesakes

def text : TypeRecord :=
  ⟨⟨"text"⟩, "std::str", .scalar ⟨false, [], [], none⟩⟩

def texts : TypeRecord :=
  ⟨⟨"texts"⟩, "array<std::str>", .array text.id⟩

def first : TypeRecord :=
  ⟨⟨"first"⟩, "default::User", .object ⟨false, [texts.id], [], [], []⟩⟩

def second : TypeRecord :=
  ⟨⟨"second"⟩, "default::User", .object ⟨false, [], [], [], []⟩⟩

/-- Two objects share a name, and one of them is based on an array. -/
def records : List TypeRecord :=
  [text, texts, first, second]

/-- The order has the array and lacks the second object. -/
theorem order_lacks_second :
    build records = .ok ⟨records⟩ ∧ order ⟨records⟩ = .ok ⟨[text.id, texts.id, first.id]⟩ ∧
      second.isOrderable = true ∧ second.id ∉ [text.id, texts.id, first.id] ∧
      (∃ s ∈ records, s.id ∈ [text.id, texts.id, first.id] ∧ s ≠ second ∧ s.name = second.name) ∧
      ¬TypeOrder.IsExact ⟨[text.id, texts.id, first.id]⟩ ⟨records⟩ := by
  have built : build records = .ok ⟨records⟩ := by cbv
  have ordered : order ⟨records⟩ = .ok ⟨[text.id, texts.id, first.id]⟩ := by cbv
  have unlisted : second.id ∉ [text.id, texts.id, first.id] := by decide
  obtain ⟨_, misses, _, exact, _⟩ := order_isExact_iff built ordered
  refine ⟨built, ordered, rfl, unlisted, misses second (by simp [records]) rfl unlisted, fun isExact => ?_⟩
  exact absurd (exact.mp isExact).1 (by decide)

end Namesakes

end Graph
end QueryShapes
