import QueryShapes.Proofs.LinkMembers

namespace QueryShapes
open Relation

/-- Where a walk can reach only what is listed and nothing from which it comes back, it can end. -/
theorem exists_end_of_no_circle {α : Type} {R : α → α → Prop} {a : α} {list : List α}
    (inside : ∀ b, ReflTransGen R a b → b ∈ list) (noCircle : ∀ b, ReflTransGen R a b → ¬TransGen R b b) :
    ∃ b, ReflTransGen R a b ∧ ∀ c, ¬R b c := by
  have finite : Finite {b // ReflTransGen R a b} := (list.finite_toSet.subset inside).to_subtype
  let Behind (c b : {b // ReflTransGen R a b}) : Prop := TransGen R b.1 c.1
  have : IsTrans _ Behind := ⟨fun _ _ _ later earlier => earlier.trans later⟩
  have : Std.Irrefl Behind := ⟨fun b => noCircle b.1 b.2⟩
  obtain ⟨⟨b, reached⟩, _, last⟩ :=
    (Finite.wellFounded_of_trans_of_irrefl Behind).has_min Set.univ ⟨⟨a, .refl⟩, trivial⟩
  exact ⟨b, reached, fun c step => last ⟨c, reached.tail step⟩ trivial (.single step)⟩

/-- How an object type joins others. One that joins none is like a union without members. -/
def ObjectType.junction (o : ObjectType) : Junction :=
  if o.isIntersection then .intersection else .union

theorem ObjectType.isConcrete_iff {o : ObjectType} :
    o.isConcrete = true ↔ o.isUnion = false ∧ o.isIntersection = false := by
  simp [isConcrete]

theorem ObjectType.joins_junction {o : ObjectType} (joined : o.isConcrete = false) : o.Joins o.junction := by
  unfold junction
  cases both : o.isIntersection with
  | true => exact both
  | false => exact ⟨by simpa [isConcrete, both] using joined, both⟩

theorem ObjectType.Joins.members_ne_nil {o : ObjectType} {j : Junction} (joins : o.Joins j) : j.members o ≠ [] := by
  cases j with
  | union => simpa [ObjectType.isUnion, Junction.members] using joins.1
  | intersection => simpa [ObjectType.Joins, ObjectType.isIntersection, Junction.members] using joins

theorem ObjectType.Joins.isConcrete_eq_false {o : ObjectType} {j : Junction} (joins : o.Joins j) :
    o.isConcrete = false := by
  cases j with
  | union => simp [ObjectType.isConcrete, joins.1]
  | intersection =>
    have joins : o.isIntersection = true := joins
    simp [ObjectType.isConcrete, joins]

theorem TypeRecord.isConcrete_of_object {r : TypeRecord} {o : ObjectType} (isObject : r.object? = some o) :
    r.isConcrete = o.isConcrete := by
  rw [isConcrete, isObject, Option.any_some]

namespace Graph

/-- A concrete type is among what a type joins, its own members and those of its members, or is the type itself. -/
def HoldsConcrete (g : Graph) (j : Junction) (r : TypeRecord) : Prop :=
  ∃ m, ReflTransGen (g.Leads j.listed) r m ∧ m.isConcrete = true

variable {g : Graph} {j : Junction} {r : TypeRecord} {o : ObjectType}

theorem concrete_joined_ne_nil_iff (isObject : r.object? = some o) (joins : o.Joins j) :
    (g.joined j r).concrete ≠ [] ↔ g.HoldsConcrete j r := by
  constructor
  · intro full
    obtain ⟨m, met⟩ := List.exists_mem_of_ne_nil _ full
    obtain ⟨met, concrete⟩ := List.mem_filter.mp met
    exact ⟨m, (mem_joined_iff.mp met).to_reflTransGen, concrete⟩
  · rintro ⟨m, path, concrete⟩
    rcases reflTransGen_iff_eq_or_transGen.mp path with rfl | path
    · rw [TypeRecord.isConcrete_of_object isObject, joins.isConcrete_eq_false] at concrete
      cases concrete
    · exact List.ne_nil_of_mem (List.mem_filter.mpr ⟨mem_joined_iff.mpr path, concrete⟩)

theorem isConcrete_eq_false_of_not_holdsConcrete (isObject : r.object? = some o) (none : ¬g.HoldsConcrete j r) :
    o.isConcrete = false := by
  by_contra concrete
  rw [Bool.not_eq_false, ← TypeRecord.isConcrete_of_object isObject] at concrete
  exact none ⟨r, .refl, concrete⟩

/-- Only types that are among their own members keep a type from holding a concrete one. -/
theorem IsWellFormed.holdsConcrete_of_no_circle (wellFormed : IsWellFormed g.records) (member : r ∈ g.records)
    (isObject : r.object? = some o) (joins : o.Joins j) (fits : ∀ m, TransGen (g.Leads j.listed) r m → ¬j.Refuses m)
    (noCircle : ∀ m, ReflTransGen (g.Leads j.listed) r m → ¬TransGen (g.Leads j.listed) m m) :
    g.HoldsConcrete j r := by
  have inside (m : TypeRecord) (path : ReflTransGen (g.Leads j.listed) r m) : m ∈ g.records :=
    mem_of_reflTransGen path member
  obtain ⟨last, path, ends⟩ := exists_end_of_no_circle inside noCircle
  -- Every id is found, so a walk that cannot go on has come to a type that lists none.
  have nothing : j.listed last = [] := by
    refine List.eq_nil_iff_forall_not_mem.mpr fun id listed => ?_
    obtain ⟨next, found⟩ := wellFormed.isClosed_listed j last (inside last path) id listed
    exact ends next ⟨id, listed, found⟩
  rcases reflTransGen_iff_eq_or_transGen.mp path with rfl | below
  · rw [Junction.listed_of_object isObject] at nothing
    exact absurd nothing joins.members_ne_nil
  · have fits := fits last below
    rw [Junction.Refuses, not_or, not_not, Bool.not_eq_false] at fits
    obtain ⟨o', isObject'⟩ := Option.isSome_iff_exists.mp fits.1
    exact ⟨last, path, (Junction.isConcrete_iff isObject' fits.2).mpr nothing⟩

end Graph

namespace Scope

/-- A link that leads somewhere: there is a group, each group has members, and all of them are emitted. -/
structure NamesShapes (s : Scope) (groups : List (List String)) : Prop where
  some : groups ≠ []
  full : ∀ group ∈ groups, group ≠ []
  kept : ∀ group ∈ groups, ∀ symbol ∈ group, s.KeepsShapeNamed symbol

theorem namesShapes_arrange_iff {s : Scope} {j : Junction} {symbols : List String}
    (kept : ∀ symbol ∈ symbols, s.KeepsShapeNamed symbol) : s.NamesShapes (j.arrange symbols) ↔ symbols ≠ [] := by
  cases j with
  | union =>
    refine ⟨fun names none => names.some (by rw [none]; rfl), fun full => ⟨?_, ?_, ?_⟩⟩
    · simpa [Junction.arrange] using full
    · simp [Junction.arrange]
    · simpa [Junction.arrange] using kept
  | intersection =>
    refine ⟨fun names => names.full symbols (List.mem_singleton.mpr rfl), fun full => ⟨?_, ?_, ?_⟩⟩
    · simp [Junction.arrange]
    · simpa [Junction.arrange] using full
    · simpa [Junction.arrange] using kept

section Built

variable {s : Scope} (wellFormed : Graph.IsWellFormed s.graph.records) {r : TypeRecord} {o : ObjectType}
include wellFormed

theorem linkTarget_of_plain (member : r ∈ s.graph.records) (isObject : r.object? = some o)
    (concrete : o.isConcrete = true) (referencing : String) :
    s.linkTarget referencing r.id = .ok (if s.keepsShape r then .link [[identOf r.name]] else .unknownLink) := by
  have own := Graph.get?_of_mem wellFormed.ids_nodup member
  have plain := ObjectType.isConcrete_iff.mp concrete
  have grouped : s.graph.groups r o = .ok [[r]] := by simp [Graph.groups, plain.1, plain.2]
  rw [linkTarget_of_groups wellFormed (Graph.resolveObject_eq_ok_iff.mpr ⟨own, isObject⟩) grouped]
  simp

/-- A link names what its target stands for, arranged in the way in which the target joins it. -/
theorem exists_arranged_of_link (member : r ∈ s.graph.records) (isObject : r.object? = some o)
    {referencing : String}
    {groups : List (List String)} (linked : s.linkTarget referencing r.id = .ok (.link groups)) :
    ∃ symbols, groups = o.junction.arrange symbols ∧ (symbols ≠ [] ↔ s.graph.HoldsConcrete o.junction r) := by
  cases concrete : o.isConcrete with
  | true =>
    rw [linkTarget_of_plain wellFormed member isObject concrete] at linked
    split at linked
    · cases linked
      refine ⟨[identOf r.name], ?_, iff_of_true (List.cons_ne_nil _ _) ?_⟩
      · rw [ObjectType.junction, (ObjectType.isConcrete_iff.mp concrete).2]
        rfl
      · exact ⟨r, .refl, (TypeRecord.isConcrete_of_object isObject).trans concrete⟩
    · cases linked
  | false =>
    have joins := ObjectType.joins_junction concrete
    have links := linksMembers_of_joins wellFormed member isObject joins referencing
    cases problem : (s.graph.joined o.junction r).problem? o.junction with
    | some e => cases linked.symm.trans ((links.first e).mpr problem)
    | none =>
      rw [links.links problem] at linked
      split at linked
      · cases linked
        refine ⟨_, rfl, ?_⟩
        rw [← Graph.concrete_joined_ne_nil_iff isObject joins, Ne, List.map_eq_nil_iff]
      · cases linked

theorem not_refuses_of_linkTarget (member : r ∈ s.graph.records) (isObject : r.object? = some o) {j : Junction}
    (joins : o.Joins j) {referencing : String} {target : Target}
    (resolved : s.linkTarget referencing r.id = .ok target) :
    ∀ m, TransGen (s.graph.Leads j.listed) r m → ¬j.Refuses m := by
  intro m path refused
  have links := linksMembers_of_joins wellFormed member isObject joins referencing
  obtain ⟨e, failed⟩ := links.fails.mpr ⟨m, path, refused⟩
  rw [resolved] at failed
  cases failed

/-- A link is empty when all members fit and none of them is concrete. -/
theorem linkTarget_of_not_holdsConcrete (member : r ∈ s.graph.records) (isObject : r.object? = some o)
    (none : ¬s.graph.HoldsConcrete o.junction r)
    (fits : ∀ m, TransGen (s.graph.Leads o.junction.listed) r m → ¬o.junction.Refuses m) (referencing : String) :
    s.linkTarget referencing r.id = .ok (.link (o.junction.arrange [])) := by
  have joins := ObjectType.joins_junction (Graph.isConcrete_eq_false_of_not_holdsConcrete isObject none)
  have noProblem : (s.graph.joined o.junction r).problem? o.junction = Option.none := by
    refine Option.eq_none_iff_forall_ne_some.mpr fun e problem => ?_
    obtain ⟨m, met, refused⟩ := Traversal.exists_problem?_iff.mp ⟨e, problem⟩
    exact fits m (Graph.mem_joined_iff.mp met) refused
  have empty : (s.graph.joined o.junction r).concrete = [] := by
    by_contra full
    exact none ((Graph.concrete_joined_ne_nil_iff isObject joins).mp full)
  rw [(linksMembers_of_joins wellFormed member isObject joins referencing).links noProblem, empty]
  rfl

end Built

/-- What a link to a type names. It names nothing only where types are among their own members. -/
structure LinksConcrete (s : Scope) (r : TypeRecord) (j : Junction) (groups : List (List String)) : Prop where
  names : s.NamesShapes groups ↔ s.graph.HoldsConcrete j r
  empty : ¬s.graph.HoldsConcrete j r → groups = j.arrange []
  circles : ¬s.graph.HoldsConcrete j r →
    ∃ m, ReflTransGen (s.graph.Leads j.listed) r m ∧ TransGen (s.graph.Leads j.listed) m m

/-- A link that is known names emitted shapes, with at least one in each group, as long as a concrete
type is among what its target joins. Where members only lead round in a circle it names none: the
link to a union then has no group, and that to an intersection an empty one. -/
theorem linkTarget_names_shapes_iff {records : List TypeRecord} {s : Scope}
    (built : Graph.build records = .ok s.graph) :
    (∀ referencing id target, s.linkTarget referencing id = .ok target →
      (target.typeText = "unknown" ∧ target.valueText? = some "null") ∨
        ∃ r o groups, s.graph.get? id = some r ∧ r.object? = some o ∧ target = .link groups ∧
          target.ListsGroups groups ∧ s.LinksConcrete r o.junction groups) ∧
      ∀ r ∈ s.graph.records, ∀ o, r.object? = some o → ¬s.graph.HoldsConcrete o.junction r →
        (∀ m, TransGen (s.graph.Leads o.junction.listed) r m → ¬o.junction.Refuses m) → ∀ referencing,
          s.linkTarget referencing r.id = .ok (.link (o.junction.arrange [])) := by
  have wellFormed := Graph.isWellFormed_of_build built
  refine ⟨fun referencing id target resolved => ?_, fun r member o isObject none fits referencing =>
    linkTarget_of_not_holdsConcrete wellFormed member isObject none fits referencing⟩
  rcases listsGroups_of_linkTarget resolved with unknown | ⟨groups, rfl, lists⟩
  · exact Or.inl unknown
  · obtain ⟨r, o, _, found, _⟩ := (exists_linkTarget_iff wellFormed).mp ⟨_, resolved⟩
    obtain ⟨found, isObject⟩ := Graph.resolveObject_eq_ok_iff.mp found
    have member := Graph.mem_of_get? found
    obtain rfl := Graph.id_of_get? found
    obtain ⟨symbols, rfl, named⟩ := exists_arranged_of_link wellFormed member isObject resolved
    refine Or.inr ⟨r, o, _, found, isObject, rfl, lists, ⟨?_, fun none => ?_, fun none => ?_⟩⟩
    · rw [← named]
      refine namesShapes_arrange_iff fun symbol isNamed => ?_
      rcases linkTarget_cases resolved with impossible | ⟨_, same, kept⟩
      · cases impossible
      · cases same
        rw [Junction.flatten_arrange] at kept
        exact kept symbol isNamed
    · rw [← named, not_not] at none
      rw [none]
    · by_contra noCircle
      have joins := ObjectType.joins_junction (Graph.isConcrete_eq_false_of_not_holdsConcrete isObject none)
      have fits := not_refuses_of_linkTarget wellFormed member isObject joins resolved
      exact none (wellFormed.holdsConcrete_of_no_circle member isObject joins fits fun m path circle =>
        noCircle ⟨m, path, circle⟩)

namespace CircularMembers
open SharedMembers

/-- A union of nothing but itself. -/
def circle : TypeRecord :=
  object "default" "Circle" [⟨"Circle"⟩] []

/-- An intersection of nothing but itself. -/
def knot : TypeRecord :=
  object "default" "Knot" [] [⟨"Knot"⟩]

/-- Two unions that list each other, and one of them a concrete type as well. -/
def couple : TypeRecord :=
  object "default" "Couple" [⟨"Family"⟩] []

def family : TypeRecord :=
  object "default" "Family" [couple.id, person.id] []

def scope : Scope :=
  ⟨⟨[circle, knot, couple, family, person]⟩, ⟨[]⟩, {}, none⟩

theorem reaches_only_itself {r : TypeRecord} {edges : TypeRecord → List TypeId}
    (own : ∀ id ∈ edges r, scope.graph.get? id = some r) {m : TypeRecord}
    (path : ReflTransGen (scope.graph.Leads edges) r m) : m = r := by
  induction path with
  | refl => rfl
  | tail _ step ih =>
    obtain ⟨id, listed, found⟩ := step
    rw [ih] at listed
    exact Option.some_inj.mp (found.symm.trans (own id listed))

/-- Types that lead only to themselves hold no concrete type, and nothing speaks against them. -/
theorem holds_nothing (r : TypeRecord) (j : Junction) (own : ∀ id ∈ j.listed r, scope.graph.get? id = some r)
    (joined : r.isConcrete = false) (fits : ¬j.Refuses r) :
    ¬scope.graph.HoldsConcrete j r ∧ ∀ m, TransGen (scope.graph.Leads j.listed) r m → ¬j.Refuses m := by
  refine ⟨?_, fun m path => ?_⟩
  · rintro ⟨m, path, concrete⟩
    rw [reaches_only_itself own path, joined] at concrete
    cases concrete
  · rwa [reaches_only_itself own path.to_reflTransGen]

theorem names_nothing :
    Graph.build scope.graph.records = .ok scope.graph ∧
      scope.linkTarget person.name circle.id = .ok (.link []) ∧ ¬scope.NamesShapes [] ∧
        scope.linkTarget person.name knot.id = .ok (.link [[]]) ∧ ¬scope.NamesShapes [[]] ∧
          scope.linkTarget person.name couple.id = .ok (.link [["default_Person"]]) ∧
            scope.NamesShapes [["default_Person"]] := by
  have built : Graph.build scope.graph.records = .ok scope.graph := by cbv
  obtain ⟨links, empty⟩ := linkTarget_names_shapes_iff built
  have fits (r : TypeRecord) (j : Junction) (isObject : r.isObject = true) (plain : j.other.listed r = []) :
      ¬j.Refuses r := by
    simp [Junction.Refuses, isObject, plain]
  have ofCircle := holds_nothing circle .union (by decide) rfl (fits _ _ rfl rfl)
  have ofKnot := holds_nothing knot .intersection (by decide) rfl (fits _ _ rfl rfl)
  have linkedCouple : scope.linkTarget person.name couple.id = .ok (.link [["default_Person"]]) := by cbv
  refine ⟨built, ?_, fun names => names.some rfl, ?_, fun names => names.full [] (by simp) rfl, linkedCouple, ?_⟩
  · exact empty circle (by simp [scope]) _ rfl ofCircle.1 ofCircle.2 _
  · exact empty knot (by simp [scope]) _ rfl ofKnot.1 ofKnot.2 _
  · rcases links _ _ _ linkedCouple with unknown | ⟨r, o, groups, found, isObject, same, _, linked⟩
    · exact absurd unknown.1 (by decide)
    · cases same
      obtain rfl : couple = r := Option.some_inj.mp found
      cases isObject
      have path : ReflTransGen (scope.graph.Leads Junction.union.listed) couple person :=
        .head ⟨⟨"Family"⟩, by decide, rfl⟩ (.single ⟨person.id, by decide, rfl⟩)
      exact linked.names.mpr ⟨person, path, rfl⟩

end CircularMembers
end Scope
end QueryShapes
