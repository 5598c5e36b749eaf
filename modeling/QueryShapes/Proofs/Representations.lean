import QueryShapes.Proofs.BaseOrder
import QueryShapes.Proofs.Outcome
import QueryShapes.Shape.TypeExpr

namespace QueryShapes
open Relation

namespace TypeRecord

/-- The types by which the values of a record are represented. Enums stand for themselves. -/
def unfolding (r : TypeRecord) : List TypeId :=
  if r.scalar?.any ScalarType.isEnum then [] else r.representedBy

theorem mem_representedBy_of_mem_unfolding {r : TypeRecord} {id : TypeId} (listed : id ∈ r.unfolding) :
    id ∈ r.representedBy := by
  unfold unfolding at listed
  split at listed
  · cases listed
  · exact listed

theorem mem_unfolding {r : TypeRecord} {id : TypeId} (derives : r.DerivesFrom id)
    (noEnum : r.scalar?.any ScalarType.isEnum = false) : id ∈ r.unfolding := by
  rw [unfolding, if_neg (by simp [noEnum])]
  exact mem_representedBy.mpr derives

theorem object?_eq_some_iff {r : TypeRecord} {o : ObjectType} : r.object? = some o ↔ r.kind = .object o := by
  unfold object?
  split <;> simp_all

theorem unfolding_object {r : TypeRecord} (isObject : r.isObject = true) : r.unfolding = [] := by
  obtain ⟨o, same⟩ := Option.isSome_iff_exists.mp isObject
  simp [unfolding, scalar?, representedBy, object?_eq_some_iff.mp same]

end TypeRecord

namespace Graph

/-- The values of the first record are represented by those of the second. -/
def UnfoldsTo (g : Graph) : TypeRecord → TypeRecord → Prop :=
  g.Leads TypeRecord.unfolding

/-- The first object to which a type unfolds: the type itself, or else that of the first among the
types that represent it which unfolds to an object at all. -/
inductive FirstObject (g : Graph) : TypeRecord → TypeRecord → Prop
  | here {r} : r.isObject = true → FirstObject g r r
  | deeper {r t o before id after} : r.unfolding = before ++ id :: after →
      (∀ id' ∈ before, ∀ b, g.get? id' = some b → ∀ o', ReflTransGen g.UnfoldsTo b o' → o'.isObject = false) →
      g.get? id = some t → FirstObject g t o → FirstObject g r o

theorem FirstObject.reached {g : Graph} {r o : TypeRecord} (first : g.FirstObject r o) :
    ReflTransGen g.UnfoldsTo r o ∧ o.isObject = true := by
  induction first with
  | here isObject => exact ⟨.refl, isObject⟩
  | @deeper r t o before id after parts _ found _ ih =>
    obtain ⟨path, isObject⟩ := ih
    exact ⟨.head ⟨id, by simp [parts], found⟩ path, isObject⟩

namespace IsWellFormed

variable {g : Graph} (wellFormed : IsWellFormed g.records)
include wellFormed

theorem accepts : ∀ r ∈ g.records, g.Accepts r :=
  fun r member => ⟨wellFormed.named r member, wellFormed.closed r member⟩

theorem exists_mentioned {r : TypeRecord} (member : r ∈ g.records) {id : TypeId} (mentions : r.Mentions id) :
    ∃ s, g.get? id = some s :=
  get?_exists_iff.mpr (wellFormed.closed r member id mentions)

theorem exists_qualifiedName {r : TypeRecord} (member : r ∈ g.records) (orderable : r.isOrderable = true) :
    ∃ q, r.qualifiedName = .ok q := by
  obtain ⟨q, parsed⟩ := QualifiedName.parse_of_isQualified (wellFormed.named r member orderable)
  exact ⟨q, mapError_eq_ok_iff.mpr parsed⟩

theorem acc_derives {r : TypeRecord} (member : r ∈ g.records) : Acc (fun s r => Derives g.records r s) r := by
  rcases checkRepresentations_outcome wellFormed.ids_nodup wellFormed.accepts with
    ⟨_, acc⟩ | ⟨first, last, _, here, _, path, edge⟩
  · exact acc r member
  · exact absurd (TransGen.tail' path edge) (wellFormed.founded first here)

theorem derives_of_unfoldsTo {r s : TypeRecord} (edge : g.UnfoldsTo r s) : Derives g.records r s := by
  obtain ⟨id, listed, found⟩ := edge
  exact (leads_representedBy_iff wellFormed.ids_nodup).mp
    ⟨id, TypeRecord.mem_representedBy_of_mem_unfolding listed, found⟩

/-- Unfolding always comes to an end. -/
theorem wellFounded_unfoldsTo : WellFounded fun s r => g.UnfoldsTo r s := by
  have acc {r : TypeRecord} (member : r ∈ g.records) : Acc (fun s r => g.UnfoldsTo r s) r :=
    Subrelation.accessible (fun edge => wellFormed.derives_of_unfoldsTo edge) (wellFormed.acc_derives member)
  exact ⟨fun r => ⟨r, fun s edge => acc edge.mem⟩⟩

theorem exists_unfolding {r : TypeRecord} (member : r ∈ g.records) {id : TypeId} (listed : id ∈ r.unfolding) :
    ∃ s, g.get? id = some s := by
  have derives := TypeRecord.mem_representedBy.mp (TypeRecord.mem_representedBy_of_mem_unfolding listed)
  exact wellFormed.exists_mentioned member derives.mentions

end IsWellFormed

/-- The representations of the types on a path are derived from that of a record. -/
def IsAbove (g : Graph) (path : List TypeId) (r : TypeRecord) : Prop :=
  ∀ id ∈ path, ∃ a ∈ g.records, a.id = id ∧ TransGen (Derives g.records) a r

end Graph

namespace Scope

/-- The type of the values of a type, given those of the types by which it is represented.
Nothing watches for types that represent each other. -/
def represent (s : Scope) (below : String → TypeId → Except SchemaError TypeExpr) (referencing : String)
    (id : TypeId) :
    Except SchemaError TypeExpr :=
  match s.graph.resolve referencing id with
  | .error e => .error e
  | .ok r =>
    match r.kind with
    | .scalar t =>
      if t.isEnum then
        if s.keepsEnum r then r.qualifiedName.map .enumeration else .ok (.primitive .string)
      else
        match t.material with
        | none => .ok (.primitive (.ofScalar r.name))
        | some material => if material = r.id then .ok (.primitive (.ofScalar r.name)) else below r.name material
    | .object _ => .error (.wrongKind r "scalar")
    | .array element => (below r.name element).map .array
    | .tuple elements =>
      match elements.mapM fun e => below r.name e.target with
      | .error e => .error e
      | .ok types =>
        if areNamed elements then .ok (.record ((elements.map TupleElement.name).zip types)) else .ok (.tuple types)

theorem represent_object {s : Scope} {r : TypeRecord} {id : TypeId} (found : s.graph.get? id = some r)
    (isObject : r.isObject = true) (below : String → TypeId → Except SchemaError TypeExpr) (referencing : String) :
    s.represent below referencing id = .error (.wrongKind r "scalar") := by
  obtain ⟨o, same⟩ := Option.isSome_iff_exists.mp isObject
  simp only [represent, Graph.resolve_eq_ok_iff.mpr found, TypeRecord.object?_eq_some_iff.mp same]

/-- A type that is not on the path is represented like any other. -/
theorem typeExprFrom_step {s : Scope} {path : List TypeId} {r : TypeRecord} {id : TypeId}
    (found : s.graph.get? id = some r) (new : r.id ∉ path) (referencing : String) :
    s.typeExprFrom path referencing id = s.represent (s.typeExprFrom (r.id :: path)) referencing id := by
  rw [typeExprFrom, represent, Graph.resolve_eq_ok_iff.mpr found]
  exact dif_neg new

/-- The type of a record is put together from those to which it unfolds. -/
def IsAssembled (s : Scope) (r : TypeRecord) : Prop :=
  ∃ assemble : List TypeExpr → TypeExpr, ∀ below referencing id, s.graph.get? id = some r →
    s.represent below referencing id = (r.unfolding.mapM (below r.name)).map assemble

section Assembled

variable {s : Scope} {r : TypeRecord}

theorem isAssembled_of_leaf (e : TypeExpr) (none : r.unfolding = [])
    (stands : ∀ below referencing id, s.graph.get? id = some r → s.represent below referencing id = .ok e) :
    s.IsAssembled r := by
  refine ⟨fun _ => e, fun below referencing id found => ?_⟩
  rw [none, stands below referencing id found]
  rfl

theorem isAssembled_of_single (wrap : TypeExpr → TypeExpr) {target : TypeId}
    (single : r.unfolding = [target])
    (stands : ∀ below referencing id, s.graph.get? id = some r →
      s.represent below referencing id = (below r.name target).map wrap) : s.IsAssembled r := by
  refine ⟨fun types => wrap (types.headD (.primitive .unknown)), fun below referencing id found => ?_⟩
  rw [single, mapM_singleton, map_map, stands below referencing id found]
  rfl

theorem isAssembled_scalar {t : ScalarType} (kind : r.kind = .scalar t) (noEnum : ¬t.isEnum = true) :
    s.IsAssembled r := by
  have unfolding : r.unfolding = t.material.toList.filter (· ≠ r.id) := by
    simp [TypeRecord.unfolding, TypeRecord.scalar?, TypeRecord.representedBy, kind, noEnum]
  have primitive (none : r.unfolding = []) (own : ∀ m, t.material = some m → m = r.id) : s.IsAssembled r := by
    refine isAssembled_of_leaf (.primitive (.ofScalar r.name)) none fun below referencing id found => ?_
    cases material : t.material with
    | none => simp [represent, Graph.resolve_eq_ok_iff.mpr found, kind, noEnum, material]
    | some m => simp [represent, Graph.resolve_eq_ok_iff.mpr found, kind, noEnum, material, own m material]
  cases material : t.material with
  | none => exact primitive (by simp [unfolding, material]) (by simp [material])
  | some m =>
    by_cases own : m = r.id
    · exact primitive (by simp [unfolding, material, own]) (by simp [material, own])
    · have single : r.unfolding = [m] := by simp [unfolding, material, own]
      refine isAssembled_of_single id single fun below referencing id found => ?_
      simp [represent, Graph.resolve_eq_ok_iff.mpr found, kind, noEnum, material, own]

end Assembled

section Built

variable {s : Scope} (wellFormed : Graph.IsWellFormed s.graph.records)
include wellFormed

theorem isAssembled_enum {r : TypeRecord} (member : r ∈ s.graph.records) {t : ScalarType}
    (kind : r.kind = .scalar t) (isEnum : t.isEnum = true) : s.IsAssembled r := by
  have none : r.unfolding = [] := by simp [TypeRecord.unfolding, TypeRecord.scalar?, kind, isEnum]
  have orderable : r.isOrderable = true := by simp [TypeRecord.isOrderable, kind]
  obtain ⟨q, named⟩ := wellFormed.exists_qualifiedName member orderable
  by_cases kept : s.keepsEnum r = true
  · refine isAssembled_of_leaf (.enumeration q) none fun below referencing id found => ?_
    simp [represent, Graph.resolve_eq_ok_iff.mpr found, kind, isEnum, kept, named, Except.map]
  · refine isAssembled_of_leaf (.primitive .string) none fun below referencing id found => ?_
    simp [represent, Graph.resolve_eq_ok_iff.mpr found, kind, isEnum, kept]

theorem isAssembled {r : TypeRecord} (member : r ∈ s.graph.records) (noObject : r.isObject = false) :
    s.IsAssembled r := by
  cases kind : r.kind with
  | object o => simp [TypeRecord.isObject, TypeRecord.object?, kind] at noObject
  | scalar t =>
    by_cases isEnum : t.isEnum = true
    · exact isAssembled_enum wellFormed member kind isEnum
    · exact isAssembled_scalar kind isEnum
  | array element =>
    have single : r.unfolding = [element] := by
      simp [TypeRecord.unfolding, TypeRecord.scalar?, TypeRecord.representedBy, kind]
    refine isAssembled_of_single .array single fun below referencing id found => ?_
    simp [represent, Graph.resolve_eq_ok_iff.mpr found, kind]
  | tuple elements =>
    refine
      ⟨fun types =>
        if areNamed elements then .record ((elements.map TupleElement.name).zip types) else .tuple types,
      fun below referencing id found => ?_⟩
    have all : r.unfolding = elements.map TupleElement.target := by
      simp [TypeRecord.unfolding, TypeRecord.scalar?, TypeRecord.representedBy, kind]
    rw [all, List.mapM_map, represent, Graph.resolve_eq_ok_iff.mpr found]
    simp only [kind, Function.comp_def]
    cases elements.mapM fun e => below r.name e.target with
    | error e => rfl
    | ok types =>
      simp only [Except.map]
      split <;> rfl

/-- What is asked for below a record are the types to which it unfolds. -/
theorem represent_congr {below below' : String → TypeId → Except SchemaError TypeExpr} {r : TypeRecord}
    {id : TypeId} (found : s.graph.get? id = some r) (referencing : String)
    (same : ∀ id' ∈ r.unfolding, below r.name id' = below' r.name id') :
    s.represent below referencing id = s.represent below' referencing id := by
  by_cases isObject : r.isObject = true
  · rw [represent_object found isObject, represent_object found isObject]
  · obtain ⟨assemble, built⟩ := isAssembled wellFormed (Graph.mem_of_get? found) (by simpa using isObject)
    rw [built below referencing id found, built below' referencing id found, mapM_congr same]

theorem not_mem_of_isAbove {path : List TypeId} {r : TypeRecord} (member : r ∈ s.graph.records)
    (above : s.graph.IsAbove path r) : r.id ∉ path := by
  intro onPath
  obtain ⟨a, inGraph, sameId, derives⟩ := above r.id onPath
  cases Graph.keyed_of_ids_nodup wellFormed.ids_nodup a inGraph r member sameId
  exact wellFormed.founded _ inGraph derives

theorem isAbove_cons {path : List TypeId} {r t : TypeRecord} (member : r ∈ s.graph.records)
    (above : s.graph.IsAbove path r) (edge : s.graph.UnfoldsTo r t) : s.graph.IsAbove (r.id :: path) t := by
  have derives := wellFormed.derives_of_unfoldsTo edge
  refine List.forall_mem_cons.mpr ⟨⟨r, member, rfl, .single derives⟩, fun id onPath => ?_⟩
  obtain ⟨a, inGraph, sameId, path⟩ := above id onPath
  exact ⟨a, inGraph, sameId, path.tail derives⟩

/-- The path makes no difference: a representation never comes back to a type that stands on it. -/
theorem typeExprFrom_eq {path : List TypeId} {id : TypeId} {r : TypeRecord} (found : s.graph.get? id = some r)
    (above : s.graph.IsAbove path r) (referencing : String) :
    s.typeExprFrom path referencing id = s.represent s.typeExpr referencing id := by
  induction wellFormed.wellFounded_unfoldsTo.apply r generalizing path id referencing with
  | intro r _ ih =>
    have member := Graph.mem_of_get? found
    rw [typeExprFrom_step found (not_mem_of_isAbove wellFormed member above)]
    refine represent_congr wellFormed found referencing fun id' listed => ?_
    obtain ⟨t, found'⟩ := wellFormed.exists_unfolding member listed
    have edge : s.graph.UnfoldsTo r t := ⟨id', listed, found'⟩
    rw [ih t edge found' (isAbove_cons wellFormed member above edge), typeExpr,
      ih t edge found' (List.forall_mem_nil _)]

/-- The type of the values of a type is found by unfolding alone. -/
theorem typeExpr_eq (referencing : String) (id : TypeId) :
    s.typeExpr referencing id = s.represent s.typeExpr referencing id := by
  cases found : s.graph.get? id with
  | none =>
    rw [typeExpr, typeExprFrom, represent, Graph.resolve_eq_error_iff.mpr ⟨found, rfl⟩]
  | some r => exact typeExprFrom_eq wellFormed found (List.forall_mem_nil _) referencing

/-- There is one function that unfolds types until they are represented. -/
theorem eq_represent_iff {types : String → TypeId → Except SchemaError TypeExpr} :
    types = s.represent types ↔ types = s.typeExpr := by
  constructor
  · intro unfolds
    funext referencing id
    cases found : s.graph.get? id with
    | none =>
      rw [unfolds, typeExpr_eq wellFormed, represent, represent, Graph.resolve_eq_error_iff.mpr ⟨found, rfl⟩]
    | some r =>
      induction wellFormed.wellFounded_unfoldsTo.apply r generalizing id referencing with
      | intro r _ ih =>
        rw [unfolds, typeExpr_eq wellFormed]
        refine represent_congr wellFormed found referencing fun id' listed => ?_
        obtain ⟨t, found'⟩ := wellFormed.exists_unfolding (Graph.mem_of_get? found) listed
        exact ih t ⟨id', listed, found'⟩ r.name id' found'
  · rintro rfl
    funext referencing id
    exact typeExpr_eq wellFormed referencing id

theorem not_isObject_of_typeExpr {id : TypeId} {r : TypeRecord} (found : s.graph.get? id = some r)
    {referencing : String} {e : TypeExpr} (represented : s.typeExpr referencing id = .ok e) :
    r.isObject = false := by
  by_contra isObject
  rw [typeExpr_eq wellFormed, represent_object found (by simpa using isObject)] at represented
  cases represented

/-- A type that is represented unfolds to no object. -/
theorem objectless_of_typeExpr {id : TypeId} {r o : TypeRecord} (found : s.graph.get? id = some r)
    {referencing : String} {e : TypeExpr} (represented : s.typeExpr referencing id = .ok e)
    (path : ReflTransGen s.graph.UnfoldsTo r o) :
    o.isObject = false := by
  induction path using ReflTransGen.head_induction_on generalizing id referencing e with
  | refl => exact not_isObject_of_typeExpr wellFormed found represented
  | @head r t edge _ ih =>
    obtain ⟨id', listed, found'⟩ := edge
    have noObject := not_isObject_of_typeExpr wellFormed found represented
    obtain ⟨assemble, built⟩ := isAssembled wellFormed (Graph.mem_of_get? found) noObject
    rw [typeExpr_eq wellFormed, built _ _ _ found, map_eq_ok_iff] at represented
    obtain ⟨types, mapped, _⟩ := represented
    obtain ⟨e', below⟩ := exists_mapM_eq_ok_iff.mp ⟨types, mapped⟩ id' listed
    exact ih found' below

/-- A type is not represented because of the first object to which it unfolds. -/
theorem firstObject_of_typeExpr {id : TypeId} {r : TypeRecord} (found : s.graph.get? id = some r)
    {referencing : String} {e : SchemaError} (failed : s.typeExpr referencing id = .error e) :
    ∃ o, s.graph.FirstObject r o ∧ e = .wrongKind o "scalar" := by
  induction wellFormed.wellFounded_unfoldsTo.apply r generalizing id referencing with
  | intro r _ ih =>
    rw [typeExpr_eq wellFormed] at failed
    by_cases isObject : r.isObject = true
    · rw [represent_object found isObject] at failed
      exact ⟨r, .here isObject, (Except.error.inj failed).symm⟩
    · have member := Graph.mem_of_get? found
      obtain ⟨assemble, built⟩ := isAssembled wellFormed member (by simpa using isObject)
      rw [built _ _ _ found, map_eq_error_iff] at failed
      obtain ⟨before, id', after, parts, mapped, failed⟩ := mapM_eq_error_iff.mp failed
      have listed : id' ∈ r.unfolding := by simp [parts]
      obtain ⟨t, found'⟩ := wellFormed.exists_unfolding member listed
      obtain ⟨o, first, same⟩ := ih t ⟨id', listed, found'⟩ found' failed
      refine ⟨o, .deeper parts (fun id'' earlier b there o' path => ?_) found' first, same⟩
      obtain ⟨e', represented⟩ := mapped id'' earlier
      exact objectless_of_typeExpr wellFormed there represented path

theorem typeExpr_error {id : TypeId} {r : TypeRecord} (found : s.graph.get? id = some r) {referencing : String}
    {e : SchemaError} (failed : s.typeExpr referencing id = .error e) :
    ∃ o, ReflTransGen s.graph.UnfoldsTo r o ∧ o.isObject = true ∧ e = .wrongKind o "scalar" := by
  obtain ⟨o, first, same⟩ := firstObject_of_typeExpr wellFormed found failed
  obtain ⟨path, isObject⟩ := first.reached
  exact ⟨o, path, isObject, same⟩

/-- The types that are represented are those that unfold to no object. -/
theorem exists_typeExpr_iff {id : TypeId} {r : TypeRecord} (found : s.graph.get? id = some r)
    (referencing : String) :
    (∃ e, s.typeExpr referencing id = .ok e) ↔ ∀ o, ReflTransGen s.graph.UnfoldsTo r o → o.isObject = false := by
  constructor
  · rintro ⟨e, represented⟩ o path
    exact objectless_of_typeExpr wellFormed found represented path
  · intro objectless
    cases represented : s.typeExpr referencing id with
    | ok e => exact ⟨e, rfl⟩
    | error e =>
      obtain ⟨o, path, isObject, _⟩ := typeExpr_error wellFormed found represented
      rw [objectless o path] at isObject
      cases isObject

end Built

end Scope
end QueryShapes
