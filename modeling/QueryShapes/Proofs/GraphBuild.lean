import QueryShapes.Proofs.NameParts
import QueryShapes.Proofs.PostOrder
import QueryShapes.Schema.Build

namespace QueryShapes
open Relation

namespace TypeRecord

/-- A record mentions the types that it is made of or leads to. -/
inductive Mentions (r : TypeRecord) : TypeId → Prop
  | scalarBase {s id} : r.kind = .scalar s → id ∈ s.bases → Mentions r id
  | material {s id} : r.kind = .scalar s → s.material = some id → Mentions r id
  | objectBase {o id} : r.kind = .object o → id ∈ o.bases → Mentions r id
  | unionMember {o id} : r.kind = .object o → id ∈ o.unionOf → Mentions r id
  | intersectionMember {o id} : r.kind = .object o → id ∈ o.intersectionOf → Mentions r id
  | pointerTarget {o p} : r.kind = .object o → p ∈ o.pointers → Mentions r p.target
  | linkProperty {o p q} : r.kind = .object o → p ∈ o.pointers → q ∈ p.linkProperties → Mentions r q.target
  | arrayElement {id} : r.kind = .array id → Mentions r id
  | tupleElement {elements e} : r.kind = .tuple elements → e ∈ elements → Mentions r e.target

/-- The representation of a record is derived from that of another type. -/
inductive DerivesFrom (r : TypeRecord) : TypeId → Prop
  | material {s id} : r.kind = .scalar s → s.material = some id → id ≠ r.id → DerivesFrom r id
  | arrayElement {id} : r.kind = .array id → DerivesFrom r id
  | tupleElement {elements e} : r.kind = .tuple elements → e ∈ elements → DerivesFrom r e.target

theorem mem_references {r : TypeRecord} {id : TypeId} : id ∈ r.references ↔ r.Mentions id := by
  constructor
  · intro listed
    unfold references at listed
    split at listed
    · rename_i s kind
      rcases List.mem_append.mp listed with base | material
      · exact .scalarBase kind base
      · exact .material kind (by simpa using material)
    · rename_i o kind
      simp only [List.mem_append, List.mem_flatMap, List.mem_cons, List.mem_map] at listed
      rcases listed with ((base | union) | intersection) | ⟨p, pointer, rfl | ⟨q, property, rfl⟩⟩
      · exact .objectBase kind base
      · exact .unionMember kind union
      · exact .intersectionMember kind intersection
      · exact .pointerTarget kind pointer
      · exact .linkProperty kind pointer property
    · rename_i kind
      cases List.mem_singleton.mp listed
      exact .arrayElement kind
    · rename_i elements kind
      obtain ⟨e, member, rfl⟩ := List.mem_map.mp listed
      exact .tupleElement kind member
  · intro mentions
    cases mentions with
    | scalarBase kind member => simp [references, kind, member]
    | material kind member => simp [references, kind, member]
    | objectBase kind member => simp [references, kind, member]
    | unionMember kind member => simp [references, kind, member]
    | intersectionMember kind member => simp [references, kind, member]
    | pointerTarget kind member =>
      simp only [references, kind, List.mem_append, List.mem_flatMap]
      exact Or.inr ⟨_, member, List.mem_cons_self ..⟩
    | linkProperty kind member property =>
      simp only [references, kind, List.mem_append, List.mem_flatMap]
      exact Or.inr ⟨_, member, List.mem_cons_of_mem _ (List.mem_map_of_mem property)⟩
    | arrayElement kind => simp [references, kind]
    | tupleElement kind member =>
      simp only [references, kind]
      exact List.mem_map_of_mem member

theorem mem_representedBy {r : TypeRecord} {id : TypeId} : id ∈ r.representedBy ↔ r.DerivesFrom id := by
  constructor
  · intro listed
    unfold representedBy at listed
    split at listed
    · rename_i s kind
      obtain ⟨material, other⟩ := List.mem_filter.mp listed
      exact .material kind (by simpa using material) (by simpa using other)
    · cases listed
    · rename_i kind
      cases List.mem_singleton.mp listed
      exact .arrayElement kind
    · rename_i elements kind
      obtain ⟨e, member, rfl⟩ := List.mem_map.mp listed
      exact .tupleElement kind member
  · intro derives
    cases derives with
    | material kind material other => simp [representedBy, kind, material, other]
    | arrayElement kind => simp [representedBy, kind]
    | tupleElement kind member =>
      simp only [representedBy, kind]
      exact List.mem_map_of_mem member

theorem DerivesFrom.mentions {r : TypeRecord} {id : TypeId} (derives : r.DerivesFrom id) : r.Mentions id := by
  cases derives with
  | material kind material _ => exact .material kind material
  | arrayElement kind => exact .arrayElement kind
  | tupleElement kind member => exact .tupleElement kind member

theorem mentions_of_mem_bases {r : TypeRecord} {id : TypeId} (base : id ∈ r.bases) : r.Mentions id := by
  unfold bases at base
  split at base
  · rename_i kind
    exact .scalarBase kind base
  · rename_i kind
    exact .objectBase kind base
  · cases base
  · cases base

/-- A name that a schema declares has a module and a local part. -/
def IsNamed (r : TypeRecord) : Prop :=
  r.isOrderable = true → IsQualified r.name

end TypeRecord

namespace Graph

theorem checkDistinct_outcome (seen : List TypeId) (records : List TypeRecord) :
    checkDistinct seen records = .ok () ∧ (records.map TypeRecord.id).Nodup ∧ (∀ r ∈ records, r.id ∉ seen) ∨
      ∃ before r after, records = before ++ r :: after ∧
        checkDistinct seen records = .error (.duplicateDefinition r.id r.name) ∧
        (before.map TypeRecord.id).Nodup ∧ (∀ b ∈ before, b.id ∉ seen) ∧
        (r.id ∈ seen ∨ r.id ∈ before.map TypeRecord.id) := by
  induction records generalizing seen with
  | nil => exact Or.inl ⟨rfl, .nil, by simp⟩
  | cons r rest ih =>
    by_cases old : r.id ∈ seen
    · exact Or.inr ⟨[], r, rest, rfl, by simp [checkDistinct, old], .nil, by simp, Or.inl old⟩
    · rcases ih (r.id :: seen) with ⟨checked, distinct, apart⟩ |
        ⟨before, s, after, parts, refused, distinct, apart, repeated⟩
      · refine Or.inl ⟨by simp [checkDistinct, old, checked], ?_, ?_⟩
        · refine List.nodup_cons.mpr ⟨?_, distinct⟩
          intro again
          obtain ⟨s, member, same⟩ := List.mem_map.mp again
          exact apart s member (by simp [same])
        · refine List.forall_mem_cons.mpr ⟨old, fun s member => ?_⟩
          exact fun inSeen => apart s member (List.mem_cons_of_mem _ inSeen)
      · refine Or.inr ⟨r :: before, s, after, by rw [parts, List.cons_append], ?_, ?_, ?_, ?_⟩
        · simp [checkDistinct, old, refused]
        · refine List.nodup_cons.mpr ⟨?_, distinct⟩
          intro again
          obtain ⟨b, member, same⟩ := List.mem_map.mp again
          exact apart b member (by simp [same])
        · refine List.forall_mem_cons.mpr ⟨old, fun b member => ?_⟩
          exact fun inSeen => apart b member (List.mem_cons_of_mem _ inSeen)
        · rcases repeated with inSeen | inBefore
          · rcases List.mem_cons.mp inSeen with same | inSeen
            · exact Or.inr (by simp [same])
            · exact Or.inl inSeen
          · exact Or.inr (by simp [inBefore])

theorem checkName_outcome (r : TypeRecord) :
    checkName r = .ok () ∧ r.IsNamed ∨
      checkName r = .error (.invalidName r.name) ∧ r.isOrderable = true ∧ ¬IsQualified r.name := by
  unfold checkName TypeRecord.qualifiedName
  by_cases orderable : r.isOrderable = true
  · rw [if_pos orderable]
    cases parsed : QualifiedName.parse r.name with
    | ok q => exact Or.inl ⟨rfl, fun _ => QualifiedName.isQualified_of_parse parsed⟩
    | error e =>
      obtain ⟨rfl, unqualified⟩ := QualifiedName.parse_error parsed
      exact Or.inr ⟨rfl, orderable, unqualified⟩
  · rw [if_neg orderable]
    exact Or.inl ⟨rfl, fun named => absurd named orderable⟩

/-- Some record has the id. -/
def Has (g : Graph) (id : TypeId) : Prop :=
  ∃ r ∈ g.records, r.id = id

theorem checkReferences_outcome (g : Graph) (r : TypeRecord) :
    checkReferences g r = .ok () ∧ (∀ id ∈ r.references, g.Has id) ∨
      ∃ before id after, r.references = before ++ id :: after ∧ (∀ i ∈ before, g.Has i) ∧ ¬g.Has id ∧
        checkReferences g r = .error (.unknownReference r.name id) := by
  unfold checkReferences
  cases search : r.references.find? fun id => !g.contains id with
  | none =>
    refine Or.inl ⟨rfl, fun id listed => ?_⟩
    exact contains_iff.mp (by simpa using List.find?_eq_none.mp search id listed)
  | some missing =>
    obtain ⟨absent, before, after, parts, earlier⟩ := List.find?_eq_some_iff_append.mp search
    refine Or.inr ⟨before, missing, after, parts, fun i member => ?_, fun has => ?_, rfl⟩
    · exact contains_iff.mp (by simpa using earlier i member)
    · rw [contains_iff.mpr has] at absent
      cases absent

/-- A record is refused for its own name, or else for the first type that it
mentions and that is not there. -/
inductive RecordProblem (g : Graph) (r : TypeRecord) : SchemaError → Prop
  | name : r.isOrderable = true → ¬IsQualified r.name → RecordProblem g r (.invalidName r.name)
  | reference {before id after} : r.IsNamed → r.references = before ++ id :: after →
      (∀ i ∈ before, g.Has i) → ¬g.Has id → RecordProblem g r (.unknownReference r.name id)

/-- A record is named and all types that it mentions are there. -/
def Accepts (g : Graph) (r : TypeRecord) : Prop :=
  r.IsNamed ∧ ∀ id, r.Mentions id → g.Has id

theorem RecordProblem.not_accepts {g : Graph} {r : TypeRecord} {e : SchemaError} (problem : RecordProblem g r e) :
    ¬g.Accepts r := by
  rintro ⟨named, closed⟩
  cases problem with
  | name orderable unqualified => exact unqualified (named orderable)
  | reference _ parts _ missing =>
    exact missing (closed _ (TypeRecord.mem_references.mp (by rw [parts]; simp)))

theorem checkRecords_outcome (g : Graph) (records : List TypeRecord) :
    checkRecords g records = .ok () ∧ (∀ r ∈ records, g.Accepts r) ∨
      ∃ before r after e, records = before ++ r :: after ∧ (∀ b ∈ before, g.Accepts b) ∧ RecordProblem g r e ∧
        checkRecords g records = .error e := by
  induction records with
  | nil => exact Or.inl ⟨rfl, by simp⟩
  | cons r rest ih =>
    rcases checkName_outcome r with ⟨name, named⟩ | ⟨name, orderable, unqualified⟩
    · rcases checkReferences_outcome g r with ⟨references, closed⟩ |
        ⟨before, id, after, parts, earlier, missing, references⟩
      · have accepts : g.Accepts r := ⟨named, fun id mentions => closed id (TypeRecord.mem_references.mpr mentions)⟩
        rcases ih with ⟨checked, accepted⟩ | ⟨before, s, after, e, parts, accepted, problem, refused⟩
        · refine Or.inl ⟨?_, List.forall_mem_cons.mpr ⟨accepts, accepted⟩⟩
          rw [checkRecords, name, references, checked]
          rfl
        · refine Or.inr ⟨r :: before, s, after, e, by rw [parts, List.cons_append],
            List.forall_mem_cons.mpr ⟨accepts, accepted⟩, problem, ?_⟩
          rw [checkRecords, name, references, refused]
          rfl
      · refine Or.inr ⟨[], r, rest, _, rfl, by simp, .reference named parts earlier missing, ?_⟩
        rw [checkRecords, name, references]
        rfl
    · refine Or.inr ⟨[], r, rest, _, rfl, by simp, .name orderable unqualified, ?_⟩
      rw [checkRecords, name]
      rfl

/-- The representation of one record of a list is derived from that of another. -/
def Derives (records : List TypeRecord) (r s : TypeRecord) : Prop :=
  s ∈ records ∧ r.DerivesFrom s.id

theorem leads_representedBy_iff {g : Graph} (distinct : g.ids.Nodup) {r s : TypeRecord} :
    g.Leads TypeRecord.representedBy r s ↔ Derives g.records r s := by
  constructor
  · rintro ⟨id, listed, found⟩
    refine ⟨mem_of_get? found, ?_⟩
    rw [id_of_get? found]
    exact TypeRecord.mem_representedBy.mp listed
  · rintro ⟨member, derives⟩
    exact ⟨s.id, TypeRecord.mem_representedBy.mpr derives, get?_of_mem distinct member⟩

theorem isClosed_of_accepts {g : Graph} (accepted : ∀ r ∈ g.records, g.Accepts r)
    {edges : TypeRecord → List TypeId} (mentioned : ∀ r id, id ∈ edges r → r.Mentions id) : g.IsClosed edges := by
  intro r member id listed
  exact get?_exists_iff.mpr ((accepted r member).2 id (mentioned r id listed))

/-- Records that make up a graph: their ids are distinct, declared names have two
parts, everything mentioned is there, and representations are well founded. -/
structure IsWellFormed (records : List TypeRecord) : Prop where
  distinct : (records.map TypeRecord.id).Nodup
  named : ∀ r ∈ records, r.isOrderable = true → IsQualified r.name
  closed : ∀ r ∈ records, ∀ id, r.Mentions id → ∃ s ∈ records, s.id = id
  founded : ∀ r ∈ records, ¬TransGen (Derives records) r r

/-- What is reported of records that make up no graph. A repeated id comes before
all else, and a circle of representations after all else. -/
inductive BuildProblem (records : List TypeRecord) : SchemaError → Prop
  | duplicate {before r after} :
      records = before ++ r :: after → (before.map TypeRecord.id).Nodup → r.id ∈ before.map TypeRecord.id →
      BuildProblem records (.duplicateDefinition r.id r.name)
  | record {before r after e} :
      (records.map TypeRecord.id).Nodup → records = before ++ r :: after →
      (∀ b ∈ before, Accepts ⟨records⟩ b) → RecordProblem ⟨records⟩ r e → BuildProblem records e
  | circle {first last} :
      (records.map TypeRecord.id).Nodup → (∀ r ∈ records, Accepts ⟨records⟩ r) →
      first ∈ records → last ∈ records → ReflTransGen (Derives records) first last → Derives records last first →
      BuildProblem records (.dependencyCycle first.name last.name)

theorem BuildProblem.not_isWellFormed {records : List TypeRecord} {e : SchemaError}
    (problem : BuildProblem records e) : ¬IsWellFormed records := by
  intro wellFormed
  cases problem with
  | duplicate parts _ again =>
    have distinct := wellFormed.distinct
    rw [parts, List.map_append, List.map_cons] at distinct
    exact (List.nodup_append.mp distinct).2.2 _ again _ (List.mem_cons_self ..) rfl
  | @record before r after e _ parts _ problem =>
    have member : r ∈ records := by rw [parts]; simp
    exact problem.not_accepts ⟨wellFormed.named r member, wellFormed.closed r member⟩
  | circle _ _ member _ path edge => exact wellFormed.founded _ member (TransGen.tail' path edge)

theorem keyed_of_ids_nodup {g : Graph} (distinct : g.ids.Nodup) :
    ∀ r ∈ g.records, ∀ s ∈ g.records, r.id = s.id → r = s :=
  fun _ r _ s same => List.inj_on_of_nodup_map distinct r s same

theorem checkRepresentations_outcome {g : Graph} (distinct : g.ids.Nodup)
    (accepted : ∀ r ∈ g.records, g.Accepts r) :
    checkRepresentations g = .ok () ∧ (∀ r ∈ g.records, Acc (fun s r => Derives g.records r s) r) ∨
      ∃ first last, checkRepresentations g = .error (.dependencyCycle first.name last.name) ∧
        first ∈ g.records ∧ last ∈ g.records ∧ ReflTransGen (Derives g.records) first last ∧
        Derives g.records last first := by
  have same : g.Leads TypeRecord.representedBy = Derives g.records := by
    funext r s
    exact propext (leads_representedBy_iff distinct)
  have keyed := keyed_of_ids_nodup distinct
  unfold checkRepresentations
  cases search : g.postOrder TypeRecord.id TypeRecord.representedBy g.records [] with
  | ok done =>
    obtain ⟨ordered, _, covers⟩ := postOrder_completes search (fun _ member => member) .nil
    refine Or.inl ⟨rfl, fun r member => ?_⟩
    obtain ⟨s, inDone, sameId⟩ := List.mem_map.mp (covers r member)
    rw [keyed s (ordered.mem inDone) r member sameId] at inDone
    exact same ▸ ordered.acc keyed inDone
  | error e =>
    have closed : g.IsClosed TypeRecord.representedBy :=
      isClosed_of_accepts accepted fun _ _ listed => (TypeRecord.mem_representedBy.mp listed).mentions
    have problem := postOrder_closesCycle search (fun _ member => member) closed
    obtain ⟨first, last, rfl, here, there, path, edge⟩ := problem.circle keyed
    exact Or.inr ⟨first, last, rfl, here, there, same ▸ path, same ▸ edge⟩

theorem build_outcome (records : List TypeRecord) :
    build records = .ok ⟨records⟩ ∧ IsWellFormed records ∨
      ∃ e, build records = .error e ∧ BuildProblem records e := by
  rcases checkDistinct_outcome [] records with ⟨ids, distinct, _⟩ | ⟨before, r, after, parts, ids, fresh, _, again⟩
  · rcases checkRecords_outcome ⟨records⟩ records with ⟨checked, accepted⟩ |
      ⟨before, r, after, e, parts, accepted, problem, refused⟩
    · rcases checkRepresentations_outcome (g := ⟨records⟩) distinct accepted with ⟨founded, acc⟩ |
        ⟨first, last, circle, here, there, path, edge⟩
      · refine Or.inl ⟨by rw [build, ids]; simp [checked, founded, bind, Except.bind, pure, Except.pure], ?_⟩
        exact ⟨distinct, fun r member => (accepted r member).1, fun r member => (accepted r member).2,
          fun r member => not_transGen_of_acc (acc r member)⟩
      · exact Or.inr ⟨_, by rw [build, ids]; simp [checked, circle, bind, Except.bind],
          .circle distinct accepted here there path edge⟩
    · exact Or.inr ⟨e, by rw [build, ids]; simp [refused, bind, Except.bind],
        .record distinct parts accepted problem⟩
  · exact Or.inr ⟨_, by rw [build, ids]; rfl, .duplicate parts fresh (by simpa using again)⟩

/-- A graph is built exactly of well-formed records, which it keeps in their order. -/
theorem build_accepts_iff_isWellFormed (records : List TypeRecord) :
    ((∃ g, build records = .ok g) ↔ IsWellFormed records) ∧
      (∀ g, build records = .ok g → g.records = records) ∧
      ∀ e, build records = .error e → BuildProblem records e := by
  rcases build_outcome records with ⟨built, wellFormed⟩ | ⟨e, refused, problem⟩
  · rw [built]
    refine ⟨⟨fun _ => wellFormed, fun _ => ⟨_, rfl⟩⟩, ?_, ?_⟩
    · intro g same
      cases same
      rfl
    · intro e impossible
      cases impossible
  · rw [refused]
    refine ⟨⟨?_, fun wellFormed => absurd wellFormed problem.not_isWellFormed⟩, ?_, ?_⟩
    · rintro ⟨g, impossible⟩
      cases impossible
    · intro g impossible
      cases impossible
    · intro e' same
      cases same
      exact problem

end Graph
end QueryShapes
