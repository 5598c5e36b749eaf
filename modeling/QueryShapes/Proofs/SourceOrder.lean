import QueryShapes.Proofs.CastDecisions
import QueryShapes.Proofs.DeclaredBlocks
import QueryShapes.Proofs.UnitLayout
import QueryShapes.Proofs.GenerationSuccess
import QueryShapes.Proofs.SameTypes

namespace QueryShapes
open Relation

namespace Graph

/-- Records that make up a graph do so in any order. -/
theorem IsWellFormed.perm {records records' : List TypeRecord} (wellFormed : IsWellFormed records)
    (perm : records.Perm records') : IsWellFormed records' where
  distinct := (perm.map TypeRecord.id).nodup_iff.mp wellFormed.distinct
  named r member := wellFormed.named r (perm.mem_iff.mpr member)
  closed r member id mentions := by
    obtain ⟨s, there, same⟩ := wellFormed.closed r (perm.mem_iff.mpr member) id mentions
    exact ⟨s, perm.mem_iff.mp there, same⟩
  founded r member := by
    have same : Derives records' = Derives records := by
      funext r s
      rw [Derives, ← perm.mem_iff, Derives]
    rw [same]
    exact wellFormed.founded r (perm.mem_iff.mpr member)

variable {g g' : Graph} (perm : g.records.Perm g'.records) (names : (g.records.map TypeRecord.name).Nodup)
include perm names

theorem named?_perm (name : String) : g.named? name = g'.named? name := by
  have names' : (g'.records.map TypeRecord.name).Nodup := (perm.map TypeRecord.name).nodup_iff.mp names
  refine Option.ext fun r => ?_
  rw [named?_eq_some_iff names, named?_eq_some_iff names', perm.mem_iff]

/-- Whether bases lead in a circle does not depend on where the search for one begins. -/
theorem exists_order_perm (wellFormed : IsWellFormed g.records) {o : TypeOrder} (ordered : g.order = .ok o) :
    ∃ o', g'.order = .ok o' := by
  have names' : (g'.records.map TypeRecord.name).Nodup := (perm.map TypeRecord.name).nodup_iff.mp names
  have same := SameTypes.of_perm wellFormed.ids_nodup perm
  rcases order_outcome (wellFormed.perm perm) with ⟨done, ordered', _⟩ | ⟨e, _, closes⟩
  · exact ⟨_, ordered'⟩
  · -- A circle that closes in one order is a circle of the same types in the other.
    obtain ⟨first, last, _, member, _, path, edge⟩ := closes.circle (keyed_of_names_nodup names')
    rw [← same.leads] at path edge
    have acc := acc_isBase_of_order wellFormed names ordered (perm.mem_iff.mpr member)
    exact absurd (TransGen.tail' path edge) (not_transGen_of_acc acc)

end Graph

namespace Scope

/-- A scope has the types of another one in its own order. -/
structure Reorders (s s' : Scope) : Prop where
  perm : s.graph.records.Perm s'.graph.records
  names : (s.graph.records.map TypeRecord.name).Nodup
  ordered : s.IsOrdered
  ordered' : s'.IsOrdered
  config : s.config = s'.config
  root : s.root = s'.root

namespace Reorders

variable {s s' : Scope} (reorders : s.Reorders s')
include reorders

theorem symm : s'.Reorders s where
  perm := reorders.perm.symm
  names := (reorders.perm.map TypeRecord.name).nodup_iff.mp reorders.names
  ordered := reorders.ordered'
  ordered' := reorders.ordered
  config := reorders.config.symm
  root := reorders.root.symm

theorem sameTypes : s.SameTypes s' where
  graph := .of_perm reorders.ordered.wellFormed.ids_nodup reorders.perm
  config := reorders.config
  root := reorders.root

theorem isBase : s.graph.IsBase = s'.graph.IsBase :=
  reorders.sameTypes.graph.leads TypeRecord.bases

theorem shapeTypes : s.shapeTypes.Perm s'.shapeTypes := by
  have once := reorders.ordered.nodup_shapeTypes
  have once' := reorders.ordered'.nodup_shapeTypes
  refine (List.perm_ext_iff_of_nodup once once').mpr fun r => ?_
  rw [reorders.ordered.mem_shapeTypes_iff reorders.names, reorders.ordered'.mem_shapeTypes_iff reorders.symm.names,
    reorders.perm.mem_iff, reorders.sameTypes.keepsShape]

theorem enumTypes : s.enumTypes.Perm s'.enumTypes := by
  have nodup {s : Scope} (ordered : s.IsOrdered) : s.enumTypes.Nodup :=
    ordered.records_order.1.keys_nodup.of_map.filter _
  have moves {s s' : Scope} (reorders : s.Reorders s') {r : TypeRecord} (listed : r ∈ s.enumTypes) :
      r ∈ s'.enumTypes := by
    obtain ⟨inOrder, kept⟩ := List.mem_filter.mp listed
    have member := reorders.ordered.records_order.1.mem inOrder
    rw [reorders.sameTypes.keepsEnum] at kept
    exact reorders.ordered'.mem_enumTypes reorders.symm.names (reorders.perm.mem_iff.mp member) kept
  refine (List.perm_ext_iff_of_nodup (nodup reorders.ordered) (nodup reorders.ordered')).mpr fun r => ?_
  exact ⟨moves reorders, moves reorders.symm⟩

/-- Composites are made for all kept types or, from wherever one starts, not for all. -/
theorem exists_generate (casts : CastMap) (generates : ∃ g, s.generate casts = .ok g) :
    ∃ g', s'.generate casts = .ok g' := by
  rw [Scope.exists_generate_iff reorders.ordered.wellFormed] at generates
  refine (Scope.exists_generate_iff reorders.ordered'.wellFormed).mpr fun r listed => ?_
  rw [← reorders.sameTypes.composite]
  exact generates r (reorders.shapeTypes.mem_iff.mpr listed)

theorem enumerations {enums enums' : List Enumeration} (listed : s.enumerations = .ok enums)
    (listed' : s'.enumerations = .ok enums') : enums.Perm enums' :=
  perm_of_mapM_eq_ok reorders.enumTypes listed listed'

theorem objectDefinitions {objects objects' : List ObjectDefinition} (defined : s.objectDefinitions = .ok objects)
    (defined' : s'.objectDefinitions = .ok objects') : objects.Perm objects' := by
  simp only [Scope.objectDefinitions, ← reorders.sameTypes.composite] at defined'
  exact perm_of_mapM_eq_ok reorders.shapeTypes defined defined'

theorem isCommon_iff {a b k : TypeRecord} : s.IsCommon a b k ↔ s'.IsCommon a b k := by
  have moves {s s' : Scope} (reorders : s.Reorders s') (common : s.IsCommon a b k) : s'.IsCommon a b k :=
    ⟨reorders.perm.mem_iff.mp common.member, reorders.sameTypes.keepsShape ▸ common.kept,
      reorders.isBase ▸ common.left, reorders.isBase ▸ common.right⟩
  exact ⟨moves reorders, moves reorders.symm⟩

end Reorders

section Matrix

variable {s : Scope} (ordered : s.IsOrdered) (names : (s.graph.records.map TypeRecord.name).Nodup)
include ordered names

theorem IsOrdered.mem_names_objectMatrix_iff {name : String} : name ∈ s.objectMatrix.names ↔ s.KeepsName name := by
  have listed : s.objectMatrix.names = s.candidates.map Candidate.name :=
    CastMatrix.names_nodes s.candidates s.objectCasts
  rw [listed, candidates, List.map_map, List.mem_map]
  constructor
  · rintro ⟨r, compared, rfl⟩
    obtain ⟨member, kept⟩ := (ordered.mem_comparedObjects_iff names).mp compared
    exact ⟨r, member, kept, rfl⟩
  · rintro ⟨r, member, kept, rfl⟩
    exact ⟨r, (ordered.mem_comparedObjects_iff names).mpr ⟨member, kept⟩, rfl⟩

theorem IsOrdered.outcome?_eq_none {a b : String} (unkept : ¬s.KeepsName a ∨ ¬s.KeepsName b) :
    s.objectMatrix.outcome? a b = none := by
  have square : s.objectMatrix.IsSquare := CastMatrix.isSquare_ofNodes _ _
  rw [← ordered.mem_names_objectMatrix_iff names, ← ordered.mem_names_objectMatrix_iff names] at unkept
  rw [CastMatrix.outcome?, square.resolve_eq_none_iff.mpr unkept, Option.map_none]

theorem IsOrdered.keepsName_of_records {a b : String} (recorded : s.objectMatrix.Records a b) :
    s.KeepsName a ∧ s.KeepsName b := by
  obtain ⟨e, ambiguous, rfl, rfl⟩ := recorded
  obtain ⟨left, listed, right, listed', same⟩ := CastMatrix.mem_ambiguities_ofNodes.mp ambiguous
  obtain ⟨nameLeft, nameRight⟩ := CastMatrix.names_of_castAmbiguity? same
  rw [← ordered.mem_names_objectMatrix_iff names, ← ordered.mem_names_objectMatrix_iff names, nameLeft, nameRight]
  exact ⟨List.mem_map_of_mem listed, List.mem_map_of_mem listed'⟩

/-- Two kept types that are not recorded have at most one common type from which no other one descends. -/
theorem IsOrdered.eq_of_lowest {a b k k' : TypeRecord} (member : a ∈ s.graph.records) (kept : s.keepsShape a = true)
    (member' : b ∈ s.graph.records) (kept' : s.keepsShape b = true)
    (unrecorded : ¬s.objectMatrix.Records a.name b.name) (common : s.IsCommon a b k)
    (lowest : ∀ c, s.IsCommon a b c → ¬TransGen s.graph.IsBase c k) (common' : s.IsCommon a b k')
    (lowest' : ∀ c, s.IsCommon a b c → ¬TransGen s.graph.IsBase c k') : k = k' := by
  have left : a.candidate ∈ s.candidates :=
    List.mem_map_of_mem ((ordered.mem_comparedObjects_iff names).mpr ⟨member, kept⟩)
  have right : b.candidate ∈ s.candidates :=
    List.mem_map_of_mem ((ordered.mem_comparedObjects_iff names).mpr ⟨member', kept'⟩)
  have shared := (ordered.isShared_iff names member kept member' kept').mpr ⟨k, rfl, common⟩
  obtain ⟨c, best, _⟩ := CastMatrix.exists_mostSpecific ordered.nodup_ids_candidates ordered.nodup_names_candidates
    left right ⟨_, shared⟩ unrecorded
  obtain ⟨most, _, inBoth, descends⟩ := (ordered.isMostSpecific_iff names member kept member' kept').mp best
  have isMost {k : TypeRecord} (common : s.IsCommon a b k)
      (lowest : ∀ c, s.IsCommon a b c → ¬TransGen s.graph.IsBase c k) : k = most := by
    by_contra other
    exact lowest most inBoth (descends k common other)
  rw [isMost common lowest, isMost common' lowest']

end Matrix

namespace Reorders

variable {s s' : Scope} (reorders : s.Reorders s')
include reorders

theorem keepsName_iff {name : String} : s.KeepsName name ↔ s'.KeepsName name := by
  simp only [KeepsName, reorders.perm.mem_iff, reorders.sameTypes.keepsShape]

theorem fallback_eq : s.objectMatrix.fallback = s'.objectMatrix.fallback := by
  have fallback (s : Scope) : s.objectMatrix.fallback = s.root.elim .never fun root => .type root.name := by
    rw [objectMatrix]
    cases s.root <;> rfl
  rw [fallback, fallback, reorders.root]

theorem records_iff (a b : String) : s.objectMatrix.Records a b ↔ s'.objectMatrix.Records a b := by
  have moves {s s' : Scope} (reorders : s.Reorders s') (recorded : s.objectMatrix.Records a b) :
      s'.objectMatrix.Records a b := by
    obtain ⟨⟨r, member, kept, rfl⟩, r', member', kept', rfl⟩ :=
      reorders.ordered.keepsName_of_records reorders.names recorded
    rw [reorders.ordered.records_objectMatrix_iff reorders.names member kept member' kept'] at recorded
    rw [reorders.sameTypes.keepsShape] at kept kept'
    rw [reorders.perm.mem_iff] at member member'
    rw [reorders.ordered'.records_objectMatrix_iff reorders.symm.names member kept member' kept', ← reorders.isBase]
    simpa only [← reorders.isCommon_iff] using recorded
  exact ⟨moves reorders, moves reorders.symm⟩

/-- The candidates come in other orders, and from each the first common one is taken. But without an
ambiguity there is only one from which no other descends. -/
theorem outcome?_eq {a b : String} (unrecorded : ¬s.objectMatrix.Records a b) :
    s.objectMatrix.outcome? a b = s'.objectMatrix.outcome? a b := by
  by_cases keeps : s.KeepsName a ∧ s.KeepsName b
  · obtain ⟨⟨r, member, kept, rfl⟩, r', member', kept', rfl⟩ := keeps
    have meets := reorders.ordered'.objectMatrix_cases reorders.symm.names
      (reorders.perm.mem_iff.mp member) (reorders.sameTypes.keepsShape ▸ kept)
      (reorders.perm.mem_iff.mp member') (reorders.sameTypes.keepsShape ▸ kept')
    simp only [← reorders.isCommon_iff, ← reorders.isBase, ← reorders.fallback_eq] at meets
    rcases reorders.ordered.objectMatrix_cases reorders.names member kept member' kept' with
      ⟨k, common, lowest, outcome⟩ | ⟨none, outcome⟩
    · rcases meets with ⟨k', common', lowest', outcome'⟩ | ⟨none, _⟩
      · have same := reorders.ordered.eq_of_lowest reorders.names member kept member' kept' unrecorded common
          lowest common' lowest'
        rw [outcome, outcome', same]
      · exact absurd common (none k)
    · rcases meets with ⟨k', common', _⟩ | ⟨_, outcome'⟩
      · exact absurd common' (none k')
      · rw [outcome, outcome']
  · have unkept := not_and_or.mp keeps
    rw [reorders.ordered.outcome?_eq_none reorders.names unkept]
    rw [reorders.keepsName_iff, reorders.keepsName_iff] at unkept
    rw [reorders.ordered'.outcome?_eq_none reorders.symm.names unkept]

end Reorders

/-- What two generations have in common whose types come in different orders. -/
structure Alike (s s' : Scope) (g g' : Generation) : Prop where
  paths : ∀ path, path ∈ g.tree.paths ↔ path ∈ g'.tree.paths
  kept : s.shapeNames = s'.shapeNames
  definitions : g.definitions.Perm g'.definitions
  /-- What a kept type is defined as, if no other kept type has its symbol. -/
  defines : Set.InjOn QualifiedName.symbol s.shapeNames → ∀ q ∈ s.shapeNames, ∃ text,
    g.definitions.filter (fun d => d.1 = q.symbol) = [(q.symbol, text)] ∧
      g'.definitions.filter (fun d => d.1 = q.symbol) = [(q.symbol, text)]
  enums : ∀ m, (g.enumBlocks m).Perm (g'.enumBlocks m)
  exports : ∀ m, (g.exportBlocks m).Perm (g'.exportBlocks m)
  ambiguities : ∀ a b, s.objectMatrix.Records a b ↔ s'.objectMatrix.Records a b
  outcomes : ∀ a b, ¬s.objectMatrix.Records a b → s.objectMatrix.outcome? a b = s'.objectMatrix.outcome? a b

/-- Kept types with a symbol of their own are each defined once. -/
theorem IsOrdered.filter_definitions {s : Scope} (ordered : s.IsOrdered) (casts : CastMap)
    (enums : List Enumeration) {objects : List ObjectDefinition} (defined : s.objectDefinitions = .ok objects)
    (apart : Set.InjOn QualifiedName.symbol s.shapeNames) {q : QualifiedName} (kept : q ∈ s.shapeNames) :
    ∃ text, (s.emission casts enums objects).definitions.filter (fun d => d.1 = q.symbol) = [(q.symbol, text)] := by
  have named := forall₂_shapeNames defined
  have once := ordered.nodup_shapeNames defined
  obtain ⟨d, member, rfl⟩ := List.mem_map.mp ((mem_names_iff named).mpr kept)
  have only : objects.filter (fun d' => d'.symbol = d.name.symbol) = [d] := by
    refine List.perm_singleton.mp
      ((List.perm_ext_iff_of_nodup (once.of_map.filter _) (List.nodup_singleton d)).mpr fun d' => ?_)
    rw [List.mem_filter, List.mem_singleton, decide_eq_true_iff]
    constructor
    · rintro ⟨member', same⟩
      have kept' : d'.name ∈ s.shapeNames := (mem_names_iff named).mp (List.mem_map_of_mem member')
      exact List.inj_on_of_nodup_map once member' member (apart kept' kept same)
    · rintro rfl
      exact ⟨member, rfl⟩
  refine ⟨(nested (d.composite.lines s.config.library d.symbol)).dropLast, ?_⟩
  rw [definitions_emission, List.filter_map]
  simp only [Function.comp_def]
  rw [only, List.map_singleton, ObjectDefinition.symbol]

/-- The enums and objects are the same up to their order, so each pass writes the same blocks. -/
theorem Reorders.alike {s s' : Scope} (reorders : s.Reorders s') (casts : CastMap) {enums enums' : List Enumeration}
    {objects objects' : List ObjectDefinition} (listed : s.enumerations = .ok enums)
    (listed' : s'.enumerations = .ok enums') (defined : s.objectDefinitions = .ok objects)
    (defined' : s'.objectDefinitions = .ok objects') :
    s.Alike s' (s.emission casts enums objects) (s'.emission casts enums' objects') := by
  have enumsPerm := reorders.enumerations listed listed'
  have objectsPerm := reorders.objectDefinitions defined defined'
  have definitions :
      (s.emission casts enums objects).definitions.Perm (s'.emission casts enums' objects').definitions := by
    rw [definitions_emission, definitions_emission, reorders.config]
    exact objectsPerm.map _
  refine ⟨fun path => ?_, ?_, definitions, fun apart q kept => ?_, fun m => ?_, fun m => ?_, reorders.records_iff,
    fun a b => reorders.outcome?_eq⟩
  · rw [paths_emission, paths_emission]
    simp only [List.mem_eraseDups]
    exact ((((enumsPerm.map _).append_right _).append (objectsPerm.map _)).append_right _ |>.append_right _).mem_iff
  · ext q
    simp only [shapeNames, namesOf, Set.mem_ofPred_eq, reorders.shapeTypes.mem_iff]
  · obtain ⟨text, only⟩ := reorders.ordered.filter_definitions casts enums defined apart kept
    refine ⟨text, only, ?_⟩
    exact List.perm_singleton.mp (only ▸ (definitions.filter _).symm)
  · rw [enumBlocks_emission, enumBlocks_emission]
    exact (enumsPerm.filter _).map _
  · rw [exportBlocks_emission, exportBlocks_emission, reorders.config]
    exact (objectsPerm.filter _).map _

end Scope

namespace Snapshot

theorem findRoot_perm {g g' : Graph} (perm : g.records.Perm g'.records)
    (names : (g.records.map TypeRecord.name).Nodup) (root : Option String) :
    Scope.findRoot g root = Scope.findRoot g' root := by
  cases root with
  | none => rfl
  | some name => rw [Scope.findRoot, Graph.named?_perm perm names, Scope.findRoot]

variable {types types' : List TypeRecord} (perm : types.Perm types') (names : (types.map TypeRecord.name).Nodup)
include perm names

theorem exists_scope_perm {casts casts' : List Cast} {config : Config} {s : Scope}
    (made : Snapshot.scope ⟨types, casts⟩ config = .ok s) :
    ∃ s', Snapshot.scope ⟨types', casts'⟩ config = .ok s' ∧ s.Reorders s' := by
  have given := made
  simp only [Snapshot.scope, bind_eq_ok_iff, Scope.make, map_eq_ok_iff] at given
  obtain ⟨g, built, o, ordered, root, found, rfl⟩ := given
  obtain ⟨rfl, wellFormed⟩ := Graph.build_eq_ok_iff.mp built
  have built' : Graph.build types' = .ok ⟨types'⟩ := Graph.build_eq_ok_iff.mpr ⟨rfl, wellFormed.perm perm⟩
  have searched : ∃ o', (⟨types'⟩ : Graph).order = .ok o' := Graph.exists_order_perm perm names wellFormed ordered
  have sameRoot : Scope.findRoot ⟨types⟩ config.root = Scope.findRoot ⟨types'⟩ config.root :=
    findRoot_perm perm names _
  obtain ⟨o', ordered'⟩ := searched
  have made' : Snapshot.scope ⟨types', casts'⟩ config = .ok ⟨⟨types'⟩, o', config, root⟩ :=
    (scope_eq_ok_iff built' ordered').mpr ⟨root, sameRoot ▸ found, rfl⟩
  exact ⟨_, made', perm, names, (Scope.of_snapshot made).1, (Scope.of_snapshot made').1, rfl, rfl⟩

/-- Either all orders of the types lead to a result or none. -/
theorem exists_generate_perm {casts : List Cast} {config : Config}
    (generates : ∃ g, Snapshot.generate ⟨types, casts⟩ config = .ok g) :
    ∃ g', Snapshot.generate ⟨types', casts⟩ config = .ok g' := by
  obtain ⟨g, generated⟩ := generates
  obtain ⟨s, made, emitted⟩ := Snapshot.generate_eq_ok_iff.mp generated
  obtain ⟨s', made', reorders⟩ := exists_scope_perm perm names made
  obtain ⟨g', emitted'⟩ := reorders.exists_generate _ ⟨g, emitted⟩
  exact ⟨g', Snapshot.generate_eq_ok_iff.mpr ⟨s', made', emitted'⟩⟩

/-- The order in which a source lists its types decides neither whether they are emitted nor what is
defined and exported for each, nor where a pair of them meets unless that is ambiguous. -/
theorem generates_alike (casts : List Cast) (config : Config) :
    ((∃ g, Snapshot.generate ⟨types, casts⟩ config = .ok g) ↔
      ∃ g', Snapshot.generate ⟨types', casts⟩ config = .ok g') ∧
      ∀ g g', Snapshot.generate ⟨types, casts⟩ config = .ok g → Snapshot.generate ⟨types', casts⟩ config = .ok g' →
        ∃ s s', Snapshot.scope ⟨types, casts⟩ config = .ok s ∧ Snapshot.scope ⟨types', casts⟩ config = .ok s' ∧
          s.Alike s' g g' := by
  have names' : (types'.map TypeRecord.name).Nodup := (perm.map TypeRecord.name).nodup_iff.mp names
  refine ⟨⟨exists_generate_perm perm names, exists_generate_perm perm.symm names'⟩,
    fun g g' generated generated' => ?_⟩
  obtain ⟨s, made, emitted⟩ := Snapshot.generate_eq_ok_iff.mp generated
  obtain ⟨s', made', emitted'⟩ := Snapshot.generate_eq_ok_iff.mp generated'
  obtain ⟨enums, objects, listed, defined, rfl⟩ := Scope.generate_eq_ok_iff.mp emitted
  obtain ⟨enums', objects', listed', defined', rfl⟩ := Scope.generate_eq_ok_iff.mp emitted'
  obtain ⟨_, other, reorders⟩ : ∃ s', Snapshot.scope ⟨types', casts⟩ config = .ok s' ∧ s.Reorders s' :=
    exists_scope_perm perm names made
  cases made'.symm.trans other
  exact ⟨s, s', made, made', reorders.alike _ listed listed' defined defined'⟩

end Snapshot

namespace EitherBase

def object (id name : String) (bases : List TypeId) : TypeRecord :=
  ⟨⟨id⟩, name, .object ⟨false, bases, [], [], []⟩⟩

def named : TypeRecord :=
  object "named" "default::Named" []

def dated : TypeRecord :=
  object "dated" "default::Dated" []

def post : TypeRecord :=
  object "post" "default::Post" [named.id, dated.id]

def event : TypeRecord :=
  object "event" "default::Event" [named.id, dated.id]

def color : TypeRecord :=
  ⟨⟨"color"⟩, "default::Color", .scalar ⟨false, [], ["red"], none⟩⟩

/-- Two types that share two bases, which are listed in either order. -/
def types : List TypeRecord := [named, dated, post, event, color]

def shuffled : List TypeRecord := [dated, event, color, named, post]

def config : Config where
  root := none

def scope : Scope :=
  ⟨⟨types⟩, ⟨types.map TypeRecord.id⟩, config, none⟩

def shuffledScope : Scope :=
  ⟨⟨shuffled⟩, ⟨[dated, named, event, color, post].map TypeRecord.id⟩, config, none⟩

theorem scope_eq : Snapshot.scope ⟨types, []⟩ config = .ok scope := by
  cbv

theorem shuffledScope_eq : Snapshot.scope ⟨shuffled, []⟩ config = .ok shuffledScope := by
  cbv

def objects : List ObjectDefinition :=
  [⟨⟨"default", "Named"⟩, .ofMembers [] []⟩, ⟨⟨"default", "Dated"⟩, .ofMembers [] []⟩,
    ⟨⟨"default", "Post"⟩, .ofMembers [.spread "default_Named", .spread "default_Dated"] []⟩,
    ⟨⟨"default", "Event"⟩, .ofMembers [.spread "default_Named", .spread "default_Dated"] []⟩]

theorem objectDefinitions_eq : scope.objectDefinitions = .ok objects := by
  cbv

theorem exists_generate : ∃ g, Snapshot.generate ⟨types, []⟩ config = .ok g := by
  have listed : scope.enumerations = .ok [⟨⟨"default", "Color"⟩, ["red"]⟩] := by cbv
  exact ⟨_, Snapshot.generate_eq_ok_iff.mpr
    ⟨scope, scope_eq, Scope.generate_eq_ok_iff.mpr ⟨_, _, listed, objectDefinitions_eq, rfl⟩⟩⟩

theorem outcome?_scope : scope.objectMatrix.outcome? post.name event.name = some (.type dated.name) := by
  cbv

theorem outcome?_shuffledScope :
    shuffledScope.objectMatrix.outcome? post.name event.name = some (.type named.name) := by
  cbv

theorem symbols_apart : Set.InjOn QualifiedName.symbol scope.shapeNames := by
  have once : (objects.map ObjectDefinition.name).Nodup := by decide
  have symbols : ((objects.map ObjectDefinition.name).map QualifiedName.symbol).Nodup := by decide +kernel
  exact (nodup_map_iff_injOn once fun _ => mem_names_iff (Scope.forall₂_shapeNames objectDefinitions_eq)).mp symbols

def postName : QualifiedName := ⟨"default", "Post"⟩

theorem symbol_postName : postName.symbol = "default_Post" := by
  cbv

/-- The types that share both bases meet at the one or at the other by the order of the source. -/
theorem meets_either :
    types.Perm shuffled ∧ (types.map TypeRecord.name).Nodup ∧
      ∃ g g', Snapshot.generate ⟨types, []⟩ config = .ok g ∧ Snapshot.generate ⟨shuffled, []⟩ config = .ok g' ∧
        scope.Alike shuffledScope g g' ∧ scope.objectMatrix.Records post.name event.name ∧
        scope.objectMatrix.outcome? post.name event.name = some (.type dated.name) ∧
        shuffledScope.objectMatrix.outcome? post.name event.name = some (.type named.name) ∧
        ∃ text, g.definitions.filter (fun d => d.1 = "default_Post") = [("default_Post", text)] ∧
          g'.definitions.filter (fun d => d.1 = "default_Post") = [("default_Post", text)] := by
  have perm : types.Perm shuffled := by decide
  have names : (types.map TypeRecord.name).Nodup := by decide
  obtain ⟨generates, together⟩ := Snapshot.generates_alike perm names [] config
  obtain ⟨g, generated⟩ := exists_generate
  obtain ⟨g', generated'⟩ := generates.mp ⟨g, generated⟩
  obtain ⟨s, s', made, made', alike⟩ := together g g' generated generated'
  cases scope_eq.symm.trans made
  cases shuffledScope_eq.symm.trans made'
  have recorded : scope.objectMatrix.Records post.name event.name := by
    by_contra unrecorded
    have same := alike.outcomes post.name event.name unrecorded
    rw [outcome?_scope, outcome?_shuffledScope] at same
    exact absurd same (by decide)
  obtain ⟨text, only, only'⟩ := alike.defines symbols_apart postName
    ((mem_names_iff (Scope.forall₂_shapeNames objectDefinitions_eq)).mp (by decide))
  rw [symbol_postName] at only only'
  exact ⟨perm, names, g, g', generated, generated', alike, recorded, outcome?_scope, outcome?_shuffledScope,
    text, only, only'⟩

end EitherBase
end QueryShapes
