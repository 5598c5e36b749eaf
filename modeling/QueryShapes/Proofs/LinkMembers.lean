import Mathlib
import QueryShapes.Proofs.DepthFirst
import QueryShapes.Proofs.Failures
import QueryShapes.Proofs.LinkTexts

namespace QueryShapes
open Relation

/-- An object type that is no combination of others. -/
def TypeRecord.isConcrete (r : TypeRecord) : Bool :=
  r.object?.any ObjectType.isConcrete

/-- An object type is a union only if it is no intersection as well. -/
def ObjectType.Joins (o : ObjectType) : Junction → Prop
  | .union => o.isUnion = true ∧ o.isIntersection = false
  | .intersection => o.isIntersection = true

namespace Junction

variable {j : Junction} {r owner : TypeRecord} {o : ObjectType}

/-- The members of a record, if it is an object type. -/
def listed (j : Junction) (r : TypeRecord) : List TypeId :=
  r.object?.elim [] j.members

/-- Members of a union do one by one, those of an intersection only together. -/
def arrange {α : Type} : Junction → List α → List (List α)
  | union, members => members.map ([·])
  | intersection, members => [members]

/-- A member that is no object type, or that joins others the other way. -/
def Refuses (j : Junction) (r : TypeRecord) : Prop :=
  r.isObject = false ∨ j.other.listed r ≠ []

/-- Why a member does not fit the type that lists it. -/
def problem? (j : Junction) (step : TypeRecord × TypeRecord) : Option GenerationError :=
  if step.2.isObject then
    if j.other.listed step.2 = [] then none else some (.unsupportedShape step.1.name j step.2.name)
  else some (.schema (.wrongKind step.2 "object"))

theorem listed_of_object (isObject : r.object? = some o) : j.listed r = j.members o := by
  rw [listed, isObject]
  rfl

theorem flatten_arrange {α : Type} (j : Junction) (members : List α) : (j.arrange members).flatten = members := by
  cases j with
  | union => rw [arrange, ← List.flatMap_def, List.flatMap_singleton']
  | intersection => exact List.flatten_singleton

theorem map_arrange {α β : Type} (j : Junction) (f : α → β) (members : List α) :
    (j.arrange members).map (List.map f) = j.arrange (members.map f) := by
  cases j <;> simp [arrange]

theorem exists_problem?_iff : (∃ e, j.problem? (owner, r) = some e) ↔ j.Refuses r := by
  unfold problem? Refuses
  cases r.isObject <;> by_cases other : j.other.listed r = [] <;> simp [other]

theorem isConcrete_iff (isObject : r.object? = some o) (plain : j.other.listed r = []) :
    r.isConcrete = true ↔ j.listed r = [] := by
  rw [listed_of_object isObject] at plain ⊢
  cases j <;> simp_all [TypeRecord.isConcrete, ObjectType.isConcrete, ObjectType.isUnion, ObjectType.isIntersection,
    members, other]

end Junction

namespace Traversal

variable {seen : List TypeId}

/-- The object types that are met and stand for themselves. -/
def concrete (t : Traversal seen) : List TypeRecord :=
  t.records.filter TypeRecord.isConcrete

/-- What is wrong with the first member that does not fit. -/
def problem? (t : Traversal seen) (j : Junction) : Option GenerationError :=
  t.steps.findSome? j.problem?

/-- The concrete members of a combination, if all its members fit. -/
def members (t : Traversal seen) (j : Junction) : Except GenerationError (List TypeRecord) :=
  match t.problem? j with
  | some e => .error e
  | none => .ok t.concrete

theorem exists_problem?_iff {t : Traversal seen} {j : Junction} :
    (∃ e, t.problem? j = some e) ↔ ∃ m ∈ t.records, j.Refuses m := by
  rw [← Option.isSome_iff_exists, problem?, List.findSome?_isSome_iff]
  constructor
  · rintro ⟨⟨owner, m⟩, met, refused⟩
    exact ⟨m, List.mem_map_of_mem met, Junction.exists_problem?_iff.mp (Option.isSome_iff_exists.mp refused)⟩
  · rintro ⟨m, met, refused⟩
    obtain ⟨⟨owner, m⟩, step, rfl⟩ := List.mem_map.mp met
    exact ⟨(owner, m), step, Option.isSome_iff_exists.mpr (Junction.exists_problem?_iff.mpr refused)⟩

@[simp]
theorem members_nil (j : Junction) : (nil seen).members j = .ok [] :=
  rfl

variable {owner r : TypeRecord} {id : TypeId} (below : Traversal (id :: seen)) (rest : Traversal below.visited)
  {j : Junction}

theorem concrete_meet :
    (meet owner r below rest).concrete = [r].filter TypeRecord.isConcrete ++ below.concrete ++ rest.concrete := by
  rw [concrete, records_meet, ← List.singleton_append, List.filter_append, List.filter_append, ← List.append_assoc]
  rfl

/-- A record that fits leaves it to what it leads to, and then to what comes next, whether there is a problem. -/
theorem problem?_meet (fits : j.problem? (owner, r) = none) :
    (meet owner r below rest).problem? j = (below.problem? j).or (rest.problem? j) := by
  simp [problem?, meet, fits, List.findSome?_append]

theorem members_meet_of_problem {e : GenerationError} (refused : j.problem? (owner, r) = some e) :
    (meet owner r below rest).members j = .error e := by
  simp [members, problem?, meet, refused]

theorem members_meet (fits : j.problem? (owner, r) = none) :
    (meet owner r below rest).members j =
      below.members j >>= fun inner => (rest.members j).map fun others =>
        [r].filter TypeRecord.isConcrete ++ inner ++ others := by
  rw [members, problem?_meet below rest fits, concrete_meet, members, members]
  cases below.problem? j with
  | some e => rfl
  | none => cases rest.problem? j <;> rfl

end Traversal

namespace Graph

/-- What a record joins, as a traversal meets it. -/
def joined (g : Graph) (j : Junction) (r : TypeRecord) : Traversal [] :=
  g.depthFirst j.listed r (j.listed r) []

section Members

variable {g : Graph} {j : Junction} {owner r : TypeRecord} {id : TypeId} {pending : List (String × TypeId)}
  {seen : List TypeId}

theorem flatten_cons {name : String} (new : id ∉ seen) :
    g.flatten j ((name, id) :: pending) seen =
      match g.resolveObject name id with
      | .error e => .error (.schema e)
      | .ok (member, o) =>
        if j.other.members o ≠ [] then .error (.unsupportedShape name j member.name)
        else if j.members o ≠ [] then
          g.flatten j ((j.members o).map (member.name, ·) ++ pending) (id :: seen)
        else (g.flatten j pending (id :: seen)).map (member :: ·) := by
  rw [flatten, dif_neg new]
  split <;> simp_all

/-- A new member is refused, or else the members that it stands for take its place. -/
theorem flatten_meet (new : id ∉ seen) (found : g.get? id = some r) :
    g.flatten j ((owner.name, id) :: pending) seen =
      match j.problem? (owner, r) with
      | some e => .error e
      | none =>
        (g.flatten j ((j.listed r).map (r.name, ·) ++ pending) (id :: seen)).map
          ([r].filter TypeRecord.isConcrete ++ ·) := by
  rw [flatten_cons new, resolveObject_of_get? found, Junction.problem?]
  cases isObject : r.object? with
  | none => simp [TypeRecord.isObject, isObject]
  | some o =>
    simp only [TypeRecord.isObject, isObject, Option.isSome_some, ↓reduceIte, Junction.listed_of_object isObject]
    by_cases mixed : j.other.members o = []
    · have concrete := Junction.isConcrete_iff (j := j) isObject (by rw [Junction.listed_of_object isObject, mixed])
      rw [Junction.listed_of_object isObject] at concrete
      by_cases flat : j.members o = []
      · simp [mixed, flat, concrete]
      · simp [mixed, flat, concrete, map_id_eq]
    · simp [mixed]

/-- What is pending goes on after the traversal of what comes first, which shares its seen types. -/
theorem flatten_append (closed : g.IsClosed j.listed) {ids : List TypeId}
    (known : ∀ id ∈ ids, ∃ r, g.get? id = some r) :
    ∀ pending, g.flatten j (ids.map (owner.name, ·) ++ pending) seen =
      (g.depthFirst j.listed owner ids seen).members j >>= fun first =>
        (g.flatten j pending (g.depthFirst j.listed owner ids seen).visited).map (first ++ ·) := by
  fun_induction depthFirst g j.listed owner ids seen with
  | case1 owner seen => simp [bind, Except.bind, map_id_eq]
  | case2 owner seen id ids old ih =>
    intro pending
    rw [List.map_cons, List.cons_append, flatten, dif_pos old]
    exact ih (List.forall_mem_cons.mp known).2 pending
  | case3 owner seen id ids new missing ih =>
    obtain ⟨⟨r, found⟩, _⟩ := List.forall_mem_cons.mp known
    cases missing.symm.trans found
  | case4 owner seen id ids new r found below rest ihBelow ihRest =>
    intro pending
    obtain ⟨_, others⟩ := List.forall_mem_cons.mp known
    rw [List.map_cons, List.cons_append, flatten_meet new found]
    cases fits : j.problem? (owner, r) with
    | some e =>
      rw [Traversal.members_meet_of_problem below rest fits]
      rfl
    | none =>
      -- what the record lists stands before what was pending, so that both traversals apply in turn
      have inner := ihBelow (closed r (mem_of_get? found)) (ids.map (owner.name, ·) ++ pending)
      have later := ihRest others pending
      dsimp only
      rw [inner, later, Traversal.members_meet below rest fits, Traversal.visited_meet]
      cases below.members j with
      | error e => rfl
      | ok inner =>
        cases rest.members j with
        | error e => rfl
        | ok others =>
          cases g.flatten j pending rest.visited with
          | error e => rfl
          | ok later => simp [bind, Except.bind, Except.map]

/-- The members of a combination are those that a traversal meets. -/
theorem flatten_eq_members (closed : g.IsClosed j.listed) (member : r ∈ g.records) :
    g.flatten j ((j.listed r).map (r.name, ·)) [] = (g.joined j r).members j := by
  have all : g.flatten j ((j.listed r).map (r.name, ·) ++ []) [] = _ := flatten_append closed (closed r member) []
  rw [List.append_nil] at all
  rw [all, joined]
  cases (g.depthFirst j.listed r (j.listed r) []).members j with
  | error e => rfl
  | ok members => simp [flatten, bind, Except.bind, Except.map]

end Members

/-- The groups of a combination are the arranged members that flattening finds. -/
theorem groups_of_joins {g : Graph} {j : Junction} {r : TypeRecord} {o : ObjectType} (isObject : r.object? = some o)
    (joins : o.Joins j) : g.groups r o = (g.flatten j ((j.listed r).map (r.name, ·)) []).map j.arrange := by
  rw [Junction.listed_of_object isObject]
  cases j with
  | union =>
    obtain ⟨isUnion, noIntersection⟩ := joins
    simp only [groups, isUnion, noIntersection, Bool.false_eq_true, ↓reduceIte]
    rfl
  | intersection =>
    have isIntersection : o.isIntersection = true := joins
    simp only [groups, isIntersection, ↓reduceIte]
    rfl

theorem mem_joined_iff {g : Graph} {j : Junction} {r m : TypeRecord} :
    m ∈ (g.joined j r).records ↔ TransGen (g.Leads j.listed) r m := by
  rw [joined, mem_records_iff, TransGen.head'_iff]
  constructor
  · rintro ⟨id, listed, b, found, path⟩
    exact ⟨b, ⟨id, listed, found⟩, path⟩
  · rintro ⟨b, ⟨id, listed, found⟩, path⟩
    exact ⟨id, listed, b, found, path⟩

theorem IsWellFormed.isClosed_listed {g : Graph} (wellFormed : IsWellFormed g.records) (j : Junction) :
    g.IsClosed j.listed := by
  intro r member id listed
  cases isObject : r.object? with
  | none => simp [Junction.listed, isObject] at listed
  | some o =>
    rw [Junction.listed_of_object isObject] at listed
    exact wellFormed.exists_mentioned member (TypeRecord.mentions_of_mem_members isObject listed)

end Graph

namespace Scope

/-- How a link to a type that joins others is resolved. A traversal of its members, and of theirs
in turn, meets each of them once. The first that does not fit is the reason for a failure. -/
structure LinksMembers (s : Scope) (referencing : String) (target : TypeRecord) (j : Junction) : Prop where
  reached : ∀ m, m ∈ (s.graph.joined j target).records ↔ TransGen (s.graph.Leads j.listed) target m
  once : ((s.graph.joined j target).records.map TypeRecord.id).Nodup
  listed : ∀ owner m, (owner, m) ∈ (s.graph.joined j target).steps →
    (owner = target ∨ owner ∈ (s.graph.joined j target).records) ∧ s.graph.Leads j.listed owner m
  fails : (∃ e, s.linkTarget referencing target.id = .error e) ↔
    ∃ m, TransGen (s.graph.Leads j.listed) target m ∧ j.Refuses m
  first : ∀ e, s.linkTarget referencing target.id = .error e ↔ (s.graph.joined j target).problem? j = some e
  links : (s.graph.joined j target).problem? j = none →
    s.linkTarget referencing target.id =
      .ok (if (s.graph.joined j target).concrete.all s.keepsShape then
        .link (j.arrange ((s.graph.joined j target).concrete.map fun m => identOf m.name)) else .unknownLink)

section Built

variable {s : Scope} (wellFormed : Graph.IsWellFormed s.graph.records)
include wellFormed

theorem linkTarget_of_joins {target : TypeRecord} (member : target ∈ s.graph.records) {o : ObjectType}
    (isObject : target.object? = some o) {j : Junction} (joins : o.Joins j) (referencing : String) :
    s.linkTarget referencing target.id =
      ((s.graph.joined j target).members j).map fun members =>
        if members.all s.keepsShape then .link (j.arrange (members.map fun m => identOf m.name))
        else .unknownLink := by
  have own := Graph.get?_of_mem wellFormed.ids_nodup member
  have resolved : s.graph.resolveObject referencing target.id = .ok (target, o) :=
    Graph.resolveObject_eq_ok_iff.mpr ⟨own, isObject⟩
  have grouped := Graph.groups_of_joins (g := s.graph) isObject joins
  rw [Graph.flatten_eq_members (wellFormed.isClosed_listed j) member] at grouped
  cases met : (s.graph.joined j target).members j with
  | error e =>
    rw [linkTarget, resolved]
    simp only [grouped, met]
    rfl
  | ok members =>
    rw [met] at grouped
    rw [linkTarget_of_groups wellFormed resolved grouped, Junction.flatten_arrange, Junction.map_arrange]
    rfl

theorem linksMembers_of_joins {target : TypeRecord} (member : target ∈ s.graph.records) {o : ObjectType}
    (isObject : target.object? = some o) {j : Junction} (joins : o.Joins j) (referencing : String) :
    s.LinksMembers referencing target j := by
  have resolved := linkTarget_of_joins wellFormed member isObject joins referencing
  have fails (e : GenerationError) :
      s.linkTarget referencing target.id = .error e ↔ (s.graph.joined j target).problem? j = some e := by
    rw [resolved, map_eq_error_iff, Traversal.members]
    cases (s.graph.joined j target).problem? j <;> simp
  refine ⟨fun m => Graph.mem_joined_iff, Graph.nodup_depthFirst.1, fun owner m met => ?_, ?_, fails, fun fits => ?_⟩
  · have edge := Graph.leads_of_mem_steps (List.Subset.refl _) (fun r => List.Subset.refl _) met
    exact ⟨Graph.owner_of_mem_steps met, edge⟩
  · simp only [fails, Traversal.exists_problem?_iff, Graph.mem_joined_iff]
  · rw [resolved, Traversal.members, fits]
    rfl

end Built

/-- A link to a union leads to each of its members alone and one to an intersection to all of
them together, with nested ones in the place of the type that joins them. The text of its type
and that of its value list the same groups. -/
theorem linkTarget_joins_members {records : List TypeRecord} {s : Scope}
    (built : Graph.build records = .ok s.graph) :
    (∀ target ∈ s.graph.records, ∀ o j, target.object? = some o → o.Joins j → ∀ referencing,
        s.LinksMembers referencing target j) ∧
      ∀ referencing id target, s.linkTarget referencing id = .ok target →
        (target.typeText = "unknown" ∧ target.valueText? = some "null") ∨
          ∃ groups, target = .link groups ∧ target.ListsGroups groups := by
  have wellFormed := Graph.isWellFormed_of_build built
  refine ⟨fun target member o j isObject joins referencing => ?_, fun referencing id target resolved => ?_⟩
  · exact linksMembers_of_joins wellFormed member isObject joins referencing
  · exact listsGroups_of_linkTarget resolved

namespace SharedMembers

def object (moduleName name : String) (unionOf intersectionOf : List TypeId) : TypeRecord :=
  ⟨⟨name⟩, moduleName ++ "::" ++ name, .object ⟨false, [], unionOf, intersectionOf, []⟩⟩

def person : TypeRecord :=
  object "default" "Person" [] []

def pet : TypeRecord :=
  object "default" "Pet" [] []

def ghost : TypeRecord :=
  object "sys" "Ghost" [] []

/-- A union whose members are shared with the union that lists it. -/
def owner : TypeRecord :=
  object "default" "Owner" [person.id, ⟨"Being"⟩, pet.id] []

def being : TypeRecord :=
  object "default" "Being" [owner.id, person.id] []

def haunted : TypeRecord :=
  object "default" "Haunted" [pet.id, ghost.id] []

def pair : TypeRecord :=
  object "default" "Pair" [] [person.id, pet.id]

def mixed : TypeRecord :=
  object "default" "Mixed" [haunted.id, pair.id] []

def scope : Scope :=
  ⟨⟨[being, mixed, haunted, pair, owner, person, pet, ghost]⟩, ⟨[]⟩, {}, none⟩

theorem links_being :
    Graph.build scope.graph.records = .ok scope.graph ∧
      scope.LinksMembers pet.name being .union ∧
        scope.linkTarget pet.name being.id = .ok (.link [["default_Person"], ["default_Pet"]]) ∧
          scope.linkTarget pet.name pair.id = .ok (.link [["default_Person", "default_Pet"]]) ∧
            scope.linkTarget pet.name haunted.id = .ok .unknownLink ∧
              scope.linkTarget pet.name mixed.id = .error (.unsupportedShape mixed.name .union pair.name) := by
  have built : Graph.build scope.graph.records = .ok scope.graph := by cbv
  have all : ∀ r ∈ [being, pair, haunted, mixed], r ∈ scope.graph.records := by simp [scope]
  obtain ⟨beingListed, pairListed, hauntedListed, mixedListed⟩ := by simpa using all
  obtain ⟨links, _⟩ := linkTarget_joins_members built
  have ofBeing := links being beingListed _ .union rfl ⟨rfl, rfl⟩ pet.name
  have ofPair := links pair pairListed _ .intersection rfl rfl pet.name
  have ofHaunted := links haunted hauntedListed _ .union rfl ⟨rfl, rfl⟩ pet.name
  have ofMixed := links mixed mixedListed _ .union rfl ⟨rfl, rfl⟩ pet.name
  exact ⟨built, ofBeing, (ofBeing.links (by cbv)).trans (by cbv), (ofPair.links (by cbv)).trans (by cbv),
    (ofHaunted.links (by cbv)).trans (by cbv), (ofMixed.first _).mpr (by cbv)⟩

end SharedMembers
end Scope
end QueryShapes
