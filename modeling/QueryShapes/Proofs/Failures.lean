import QueryShapes.Proofs.CommonAncestors
import QueryShapes.Proofs.FieldOrigin
import QueryShapes.Proofs.Representations
import QueryShapes.Proofs.ResolvedTargets

namespace QueryShapes
open Relation

/-- A type is of a kind that does not fit the place where it stands, or a union or
intersection lists one of the other sort. -/
inductive TargetProblem (g : Graph) : GenerationError → Prop
  | kind {r expected} : r ∈ g.records → TargetProblem g (.schema (.wrongKind r expected))
  | shape {owner junction member} : TargetProblem g (.unsupportedShape owner junction member)

namespace TypeRecord

theorem mentions_of_mem_pointers {r : TypeRecord} {p : Pointer} (declared : p ∈ r.pointers) :
    r.Mentions p.target ∧ ∀ q ∈ p.linkProperties, r.Mentions q.target := by
  unfold pointers at declared
  split at declared
  · rename_i kind
    exact ⟨.pointerTarget kind declared, fun q property => .linkProperty kind declared property⟩
  · cases declared

theorem mentions_of_mem_members {r : TypeRecord} {o : ObjectType} (isObject : r.object? = some o)
    {junction : Junction} {id : TypeId} (member : id ∈ junction.members o) : r.Mentions id := by
  have kind := object?_eq_some_iff.mp isObject
  cases junction with
  | union => exact .unionMember kind member
  | intersection => exact .intersectionMember kind member

end TypeRecord

namespace Graph

variable {g : Graph}

theorem resolveObject_of_get? {id : TypeId} {r : TypeRecord} (found : g.get? id = some r) (name : String) :
    g.resolveObject name id =
      match r.object? with
      | some o => .ok (r, o)
      | none => .error (.wrongKind r "object") := by
  have resolved : g.resolve name id = .ok r := resolve_eq_ok_iff.mpr found
  cases isObject : r.object? <;> simp only [resolveObject, resolved, isObject]

theorem resolveObject_eq_ok_iff {g : Graph} {name : String} {id : TypeId} {r : TypeRecord} {o : ObjectType} :
    g.resolveObject name id = .ok (r, o) ↔ g.get? id = some r ∧ r.object? = some o := by
  constructor
  · intro resolved
    have found := get?_of_resolveObject resolved
    rw [resolveObject_of_get? found] at resolved
    split at resolved
    · rename_i isObject
      cases resolved
      exact ⟨found, isObject⟩
    · cases resolved
  · rintro ⟨found, isObject⟩
    rw [resolveObject_of_get? found, isObject]

theorem object?_of_resolveObject {name : String} {id : TypeId} {r : TypeRecord} {o : ObjectType}
    (resolved : g.resolveObject name id = .ok (r, o)) : r.object? = some o :=
  (resolveObject_eq_ok_iff.mp resolved).2

theorem resolveObject_error {id : TypeId} {r : TypeRecord} (found : g.get? id = some r) {name : String}
    {e : SchemaError} (failed : g.resolveObject name id = .error e) : TargetProblem g (.schema e) := by
  rw [resolveObject_of_get? found] at failed
  split at failed
  · cases failed
  · cases failed
    exact .kind (mem_of_get? found)

section Built

variable (wellFormed : IsWellFormed g.records)
include wellFormed

theorem flatten_error {junction : Junction} {pending : List (String × TypeId)} {seen : List TypeId}
    (known : ∀ p ∈ pending, ∃ r, g.get? p.2 = some r) {e : GenerationError}
    (failed : g.flatten junction pending seen = .error e) : TargetProblem g e := by
  fun_induction flatten g junction pending seen with
  | case1 => cases failed
  | case2 owner id pending seen old ih => exact ih (List.forall_mem_cons.mp known).2 failed
  | case3 owner id pending seen new e' unresolved =>
    cases failed
    obtain ⟨⟨r, found⟩, _⟩ := List.forall_mem_cons.mp known
    exact resolveObject_error found unresolved
  | case4 =>
    cases failed
    exact .shape
  | case5 owner id pending seen new member o resolved _ _ ih =>
    have inGraph := mem_of_get? (get?_of_resolveObject resolved)
    refine ih (List.forall_mem_append.mpr ⟨fun p listed => ?_, (List.forall_mem_cons.mp known).2⟩) failed
    obtain ⟨id', isMember, rfl⟩ := List.mem_map.mp listed
    exact wellFormed.exists_mentioned inGraph
      (TypeRecord.mentions_of_mem_members (object?_of_resolveObject resolved) isMember)
  | case6 owner id pending seen new member o resolved _ _ ih =>
    exact ih (List.forall_mem_cons.mp known).2 (map_eq_error_iff.mp failed)

theorem groups_error {target : TypeRecord} {o : ObjectType} (member : target ∈ g.records)
    (isObject : target.object? = some o) {e : GenerationError} (failed : g.groups target o = .error e) :
    TargetProblem g e := by
  have known (junction : Junction) :
      ∀ p ∈ (junction.members o).map (target.name, ·), ∃ r, g.get? p.2 = some r := by
    intro p listed
    obtain ⟨id, isMember, rfl⟩ := List.mem_map.mp listed
    exact wellFormed.exists_mentioned member (TypeRecord.mentions_of_mem_members isObject isMember)
  unfold groups at failed
  split at failed
  · exact flatten_error wellFormed (known .intersection) (map_eq_error_iff.mp failed)
  · split at failed
    · exact flatten_error wellFormed (known .union) (map_eq_error_iff.mp failed)
    · cases failed

end Built

end Graph

namespace Scope

section Built

variable {s : Scope} (wellFormed : Graph.IsWellFormed s.graph.records)
include wellFormed

/-- The symbol of an object type is made of its whole name. -/
theorem symbolOf_eq {r : TypeRecord} (member : r ∈ s.graph.records) (orderable : r.isOrderable = true) :
    symbolOf r = .ok (identOf r.name) := by
  obtain ⟨q, named⟩ := wellFormed.exists_qualifiedName member orderable
  refine map_eq_ok_iff.mpr ⟨q, named, ?_⟩
  rw [QualifiedName.symbol, QualifiedName.text_of_parse (mapError_eq_ok_iff.mp named)]

theorem exists_symbolOf {r : TypeRecord} (member : r ∈ s.graph.records) (kept : s.keepsShape r = true) :
    ∃ symbol, symbolOf r = .ok symbol :=
  ⟨_, symbolOf_eq wellFormed member (isOrderable_of_keepsShape kept)⟩

/-- Once the members of its target are known, a link is resolved. -/
theorem linkTarget_of_groups {referencing : String} {id : TypeId} {r : TypeRecord} {o : ObjectType}
    {groups : List (List TypeRecord)} (resolved : s.graph.resolveObject referencing id = .ok (r, o))
    (grouped : s.graph.groups r o = .ok groups) :
    s.linkTarget referencing id =
      .ok (if groups.flatten.all s.keepsShape then
        .link (groups.map fun group => group.map fun member => identOf member.name) else .unknownLink) := by
  rw [linkTarget, resolved]
  simp only [grouped]
  split
  · rename_i kept
    have inGraph := mem_records_of_groups (Graph.mem_of_get? (Graph.get?_of_resolveObject resolved)) grouped
    have symbols : groups.mapM (List.mapM symbolOf) =
        .ok (groups.map fun group => group.map fun member => identOf member.name) := by
      refine mapM_eq_ok_of_forall fun group inGroups => mapM_eq_ok_of_forall fun member inGroup => ?_
      have listed := List.mem_flatten.mpr ⟨group, inGroups, inGroup⟩
      have orderable := isOrderable_of_keepsShape (List.all_eq_true.mp kept member listed)
      exact symbolOf_eq wellFormed (inGraph member listed) orderable
    rw [symbols]
    rfl
  · rfl

theorem exists_linkTarget_iff {referencing : String} {id : TypeId} :
    (∃ target, s.linkTarget referencing id = .ok target) ↔
      ∃ r o groups, s.graph.resolveObject referencing id = .ok (r, o) ∧ s.graph.groups r o = .ok groups := by
  constructor
  · rintro ⟨target, linked⟩
    unfold linkTarget at linked
    split at linked
    · cases linked
    · rename_i r o resolved
      split at linked
      · cases linked
      · rename_i groups grouped
        exact ⟨r, o, groups, resolved, grouped⟩
  · rintro ⟨r, o, groups, resolved, grouped⟩
    exact ⟨_, linkTarget_of_groups wellFormed resolved grouped⟩

theorem linkTarget_error {id : TypeId} {r : TypeRecord} (found : s.graph.get? id = some r) {referencing : String}
    {e : GenerationError} (failed : s.linkTarget referencing id = .error e) : TargetProblem s.graph e := by
  cases resolved : s.graph.resolveObject referencing id with
  | error e' =>
    rw [linkTarget, resolved] at failed
    cases failed
    exact Graph.resolveObject_error found resolved
  | ok object =>
    obtain ⟨r, o⟩ := object
    cases grouped : s.graph.groups r o with
    | error e' =>
      rw [linkTarget, resolved] at failed
      simp only [grouped] at failed
      cases failed
      exact Graph.groups_error wellFormed (Graph.mem_of_get? (Graph.get?_of_resolveObject resolved))
        (Graph.object?_of_resolveObject resolved) grouped
    | ok groups =>
      rw [linkTarget_of_groups wellFormed resolved grouped] at failed
      cases failed

theorem typeExpr_problem {id : TypeId} {r : TypeRecord} (found : s.graph.get? id = some r) {referencing : String}
    {e : SchemaError} (failed : s.typeExpr referencing id = .error e) : TargetProblem s.graph (.schema e) := by
  obtain ⟨o, path, _, rfl⟩ := typeExpr_error wellFormed found failed
  exact .kind (Graph.mem_of_reflTransGen path (Graph.mem_of_get? found))

/-- A pointer that a record of the graph declares is described, unless what it leads to does not fit. -/
theorem describe_error {r : TypeRecord} (member : r ∈ s.graph.records) {p : Pointer} (declared : p ∈ r.pointers)
    {e : GenerationError} (failed : s.describe r.name p = .error e) : TargetProblem s.graph e := by
  obtain ⟨target, properties⟩ := TypeRecord.mentions_of_mem_pointers declared
  obtain ⟨t, found⟩ := wellFormed.exists_mentioned member target
  rcases bind_eq_error_iff.mp failed with failed | ⟨_, _, failed⟩
  · rw [pointerTarget, Graph.resolve_eq_ok_iff.mpr found] at failed
    dsimp only at failed
    split at failed
    · exact linkTarget_error wellFormed found failed
    · obtain ⟨e', unrepresented, rfl⟩ := mapError_eq_error_iff.mp failed
      exact typeExpr_problem wellFormed found (map_eq_error_iff.mp unrepresented)
  · rcases bind_eq_error_iff.mp failed with failed | ⟨_, _, impossible⟩
    · obtain ⟨q, isProperty, failed⟩ := exists_of_mapM_eq_error failed
      obtain ⟨e', unrepresented, rfl⟩ := mapError_eq_error_iff.mp failed
      obtain ⟨t', found'⟩ := wellFormed.exists_mentioned member (properties q isProperty)
      exact typeExpr_problem wellFormed found' (map_eq_error_iff.mp unrepresented)
    · cases impossible

theorem declared_error {r : TypeRecord} (member : r ∈ s.graph.records) {e : GenerationError}
    (failed : s.declared r = .error e) : TargetProblem s.graph e := by
  obtain ⟨p, declared, failed⟩ := exists_of_mapM_eq_error failed
  exact describe_error wellFormed member declared failed

/-- Bases are collected without failure. -/
theorem exists_inherit {pending : List BaseVisit} {seen : List TypeId}
    (known : ∀ referencing id, .enter referencing id ∈ pending → ∃ r, s.graph.get? id = some r) :
    ∃ found, s.inherit pending seen = .ok found := by
  fun_induction inherit s pending seen with
  | case1 => exact ⟨[], rfl⟩
  | case2 base pending seen ih =>
    obtain ⟨found, collected⟩ :=
      ih fun referencing id listed => known referencing id (List.mem_cons_of_mem _ listed)
    exact ⟨_, map_eq_ok_iff.mpr ⟨found, collected, rfl⟩⟩
  | case3 referencing id pending seen e unresolved =>
    obtain ⟨absent, _⟩ := Graph.resolve_eq_error_iff.mp unresolved
    obtain ⟨r, found⟩ := known referencing id (List.mem_cons_self ..)
    rw [absent] at found
    cases found
  | case4 referencing id pending seen base resolved kept ih =>
    obtain ⟨found, collected⟩ :=
      ih fun referencing id listed => known referencing id (List.mem_cons_of_mem _ listed)
    exact ⟨_, map_eq_ok_iff.mpr ⟨found, collected, rfl⟩⟩
  | case5 referencing id pending seen base resolved elided old ih =>
    exact ih fun referencing id listed => known referencing id (List.mem_cons_of_mem _ listed)
  | case6 referencing id pending seen base resolved elided new ih =>
    refine ih fun referencing' id' listed => ?_
    rcases List.mem_append.mp listed with ofBase | later
    · obtain ⟨b, isBase, same⟩ := List.mem_map.mp ofBase
      cases same
      exact wellFormed.isClosed_bases base (Graph.mem_of_get? (Graph.get?_of_resolve resolved)) _ isBase
    · exact known referencing' id' (List.mem_cons_of_mem _ (List.mem_of_ne_of_mem (by simp) later))

theorem exists_inheritances {r : TypeRecord} (member : r ∈ s.graph.records) :
    ∃ found, s.inheritances r = .ok found := by
  refine exists_inherit wellFormed fun referencing id listed => ?_
  obtain ⟨b, isBase, same⟩ := List.mem_map.mp listed
  cases same
  exact wellFormed.isClosed_bases r member _ isBase

theorem inheritedMembers_error {r : TypeRecord} (member : r ∈ s.graph.records) {found : List Inheritance}
    (collected : s.inheritances r = .ok found) {i : Inheritance} (listed : i ∈ found) {e : GenerationError}
    (failed : s.inheritedMembers i = .error e) : TargetProblem s.graph e := by
  obtain ⟨keptBases, elidedBases⟩ := transGen_of_inheritances collected
  cases i with
  | kept base =>
    obtain ⟨path, kept⟩ := keptBases base listed
    have inGraph := Graph.mem_of_reflTransGen path.to_reflTransGen member
    obtain ⟨symbol, named⟩ := exists_symbolOf wellFormed inGraph kept
    rw [inheritedMembers, named] at failed
    cases failed
  | elided base =>
    have inGraph := Graph.mem_of_reflTransGen (elidedBases base listed).to_reflTransGen member
    exact declared_error wellFormed inGraph (map_eq_error_iff.mp failed)

/-- A composite lacks a part only because of a pointer. -/
theorem composite_error {r : TypeRecord} (member : r ∈ s.graph.records) {e : GenerationError}
    (failed : s.composite r = .error e) : TargetProblem s.graph e := by
  obtain ⟨found, collected⟩ := exists_inheritances wellFormed member
  rw [composite, collected] at failed
  rcases bind_eq_error_iff.mp failed with impossible | ⟨_, same, failed⟩
  · cases impossible
  cases same
  rcases bind_eq_error_iff.mp failed with failed | ⟨_, _, failed⟩
  · obtain ⟨i, listed, failed⟩ := exists_of_mapM_eq_error failed
    exact inheritedMembers_error wellFormed member collected listed failed
  · rcases bind_eq_error_iff.mp failed with failed | ⟨_, _, impossible⟩
    · exact declared_error wellFormed member failed
    · cases impossible

omit wellFormed in
theorem mem_of_mem_records {r : TypeRecord} (listed : r ∈ s.order.records s.graph) : r ∈ s.graph.records := by
  obtain ⟨id, _, found⟩ := List.mem_filterMap.mp listed
  exact Graph.mem_of_get? found

theorem objectDefinitions_error {e : GenerationError} (failed : s.objectDefinitions = .error e) :
    TargetProblem s.graph e := by
  obtain ⟨r, listed, failed⟩ := exists_of_mapM_eq_error failed
  obtain ⟨inOrder, kept⟩ := List.mem_filter.mp listed
  have member := mem_of_mem_records inOrder
  obtain ⟨q, named⟩ := wellFormed.exists_qualifiedName member (isOrderable_of_keepsShape kept)
  rw [named] at failed
  rcases bind_eq_error_iff.mp failed with impossible | ⟨_, _, failed⟩
  · cases impossible
  · rcases bind_eq_error_iff.mp failed with failed | ⟨_, _, impossible⟩
    · exact composite_error wellFormed member failed
    · cases impossible

/-- Enums are emitted without failure. -/
theorem exists_enumerations : ∃ enums, s.enumerations = .ok enums := by
  refine exists_mapM_eq_ok_iff.mpr fun r listed => ?_
  obtain ⟨inOrder, kept⟩ := List.mem_filter.mp listed
  obtain ⟨q, named⟩ := wellFormed.exists_qualifiedName (mem_of_mem_records inOrder)
    (isOrderable_of_keepsEnum kept)
  exact ⟨_, map_eq_ok_iff.mpr ⟨q, named, rfl⟩⟩

theorem generate_error {casts : CastMap} {e : GenerationError} (failed : s.generate casts = .error e) :
    TargetProblem s.graph e := by
  obtain ⟨enums, listed⟩ := exists_enumerations wellFormed
  rw [generate, listed] at failed
  rcases bind_eq_error_iff.mp failed with impossible | ⟨_, _, failed⟩
  · cases impossible
  · rcases bind_eq_error_iff.mp failed with failed | ⟨_, _, impossible⟩
    · exact objectDefinitions_error wellFormed failed
    · cases impossible

end Built

/-- What is not generated lacks its root, or a type that fits its place. -/
theorem make_error {g : Graph} {o : TypeOrder} {config : Config} {e : SchemaError}
    (failed : make g o config = .error e) :
    (∃ name, config.root = some name ∧ g.named? name = none ∧ e = .typeNotFound name) ∨
      TargetProblem g (.schema e) := by
  have failed := map_eq_error_iff.mp failed
  unfold findRoot at failed
  split at failed
  · cases failed
  · rename_i name rooted
    split at failed
    · rename_i absent
      cases failed
      exact Or.inl ⟨name, rooted, absent, rfl⟩
    · rename_i r found
      split at failed
      · cases failed
      · cases failed
        exact Or.inr (.kind (mem_of_named? found))

end Scope

/-- Why nothing is generated from an ordered graph. -/
inductive GenerationProblem (g : Graph) (config : Config) : GenerationError → Prop
  | missingRoot {name} : config.root = some name → g.named? name = none →
      GenerationProblem g config (.schema (.typeNotFound name))
  | target {e} : TargetProblem g e → GenerationProblem g config e

namespace Graph

/-- Generates from a graph in some order. -/
def generate (g : Graph) (o : TypeOrder) (config : Config) (casts : CastMap) :
    Except GenerationError Generation := do
  let scope ← (Scope.make g o config).mapError .schema
  scope.generate casts

theorem generate_snapshot {types : List TypeRecord} {g : Graph} (built : build types = .ok g) (casts : List Cast)
    (config : Config) :
    Snapshot.generate ⟨types, casts⟩ config =
      g.order.mapError .schema >>= fun o => g.generate o config (.ofImplicit casts) := by
  rw [Snapshot.generate, built]
  rfl

theorem order_error {g : Graph} (wellFormed : IsWellFormed g.records) {e : SchemaError}
    (failed : g.order = .error e) :
    ∃ name conflicting, e = .dependencyCycle name conflicting := by
  rcases order_outcome wellFormed with ⟨done, ordered, _⟩ | ⟨e', failed', cycle⟩
  · rw [failed] at ordered
    cases ordered
  · cases failed.symm.trans failed'
    obtain @⟨first, last, target, _, _, _, _⟩ := cycle
    exact ⟨_, _, rfl⟩

theorem generate_error {g : Graph} (wellFormed : IsWellFormed g.records) {o : TypeOrder} {config : Config}
    {casts : CastMap} {e : GenerationError} (failed : g.generate o config casts = .error e) :
    GenerationProblem g config e := by
  rcases bind_eq_error_iff.mp failed with failed | ⟨s, made, failed⟩
  · obtain ⟨_, unmade, rfl⟩ := mapError_eq_error_iff.mp failed
    rcases Scope.make_error unmade with ⟨name, rooted, absent, rfl⟩ | problem
    · exact .missingRoot rooted absent
    · exact .target problem
  · obtain ⟨root, _, rfl⟩ := map_eq_ok_iff.mp (mapError_eq_ok_iff.mp made)
    exact .target (Scope.generate_error wellFormed failed)

/-- Once a graph is built, it is not ordered only where bases close a circle, and nothing is
generated from it only where its root is missing or a type does not fit its place. Types of
values are found by unfolding alone, which nothing has to stop: there is one function that
does so. Neither are bases, links or composites ever without a type or a name. -/
theorem failures_of_build {types : List TypeRecord} {g : Graph} (built : build types = .ok g) :
    (∀ e, g.order = .error e → ∃ name conflicting, e = .dependencyCycle name conflicting) ∧
      (∀ o config casts e, g.generate o config casts = .error e → GenerationProblem g config e) ∧
      (∀ config casts e, Snapshot.generate ⟨types, casts⟩ config = .error e →
        (∃ name conflicting, e = .schema (.dependencyCycle name conflicting)) ∨ GenerationProblem g config e) ∧
      WellFounded (fun s r => g.UnfoldsTo r s) ∧
      ∀ s : Scope, s.graph = g →
        (∀ types, types = s.represent types ↔ types = s.typeExpr) ∧
          ∀ r ∈ g.records, (∃ found, s.inheritances r = .ok found) ∧
            (∀ e, s.composite r = .error e → TargetProblem g e) ∧
            ∀ referencing, (∀ e, s.typeExpr referencing r.id = .error e → TargetProblem g (.schema e)) ∧
              ∀ e, s.linkTarget referencing r.id = .error e → TargetProblem g e := by
  have wellFormed := isWellFormed_of_build built
  refine ⟨fun e => order_error wellFormed, fun o config casts e => generate_error wellFormed,
    fun config casts e failed => ?_, wellFormed.wellFounded_unfoldsTo, ?_⟩
  · rw [generate_snapshot built] at failed
    rcases bind_eq_error_iff.mp failed with failed | ⟨o, _, failed⟩
    · obtain ⟨_, unordered, rfl⟩ := mapError_eq_error_iff.mp failed
      obtain ⟨name, conflicting, rfl⟩ := order_error wellFormed unordered
      exact Or.inl ⟨name, conflicting, rfl⟩
    · exact Or.inr (generate_error wellFormed failed)
  · rintro s rfl
    refine ⟨fun types => Scope.eq_represent_iff wellFormed, fun r member => ?_⟩
    have found := get?_of_mem wellFormed.ids_nodup member
    exact ⟨Scope.exists_inheritances wellFormed member, fun e => Scope.composite_error wellFormed member,
      fun referencing => ⟨fun e => Scope.typeExpr_problem wellFormed found,
        fun e => Scope.linkTarget_error wellFormed found⟩⟩

namespace ListedUsers

/-- An object type with a property that lists objects. -/
def user : TypeRecord :=
  ⟨⟨"user"⟩, "default::User",
    .object ⟨false, [], [], [], [⟨"friends", .property, .many, ⟨"users"⟩, none, []⟩]⟩⟩

def users : TypeRecord :=
  ⟨⟨"users"⟩, "array<default::User>", .array user.id⟩

def records : List TypeRecord :=
  [user, users]

def config : Config :=
  { root := none }

/-- The graph is built and ordered, and generates nothing. -/
theorem user_is_no_scalar :
    build records = .ok ⟨records⟩ ∧
      Snapshot.generate ⟨records, []⟩ config = .error (.schema (.wrongKind user "scalar")) ∧
      GenerationProblem ⟨records⟩ config (.schema (.wrongKind user "scalar")) := by
  have built : build records = .ok ⟨records⟩ := by cbv
  have failed : Snapshot.generate ⟨records, []⟩ config = .error (.schema (.wrongKind user "scalar")) := by cbv
  obtain ⟨_, _, reported, _⟩ := failures_of_build built
  rcases reported config [] _ failed with ⟨name, conflicting, impossible⟩ | problem
  · cases impossible
  · exact ⟨built, failed, problem⟩

end ListedUsers

end Graph
end QueryShapes
