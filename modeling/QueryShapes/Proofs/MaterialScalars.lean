import QueryShapes.Proofs.SharedTargets
import QueryShapes.Proofs.Unfoldings
import QueryShapes.Units.CastMaps

namespace QueryShapes
open Relation

namespace Graph

/-- The materials of a scalar, and theirs in turn, end at a type that stands for no other. -/
structure EndsAt (g : Graph) (r t : TypeRecord) : Prop where
  chain : ReflTransGen g.StandsFor r t
  last : ∀ u, ¬g.StandsFor t u

section Chains

variable {g : Graph}

theorem StandsFor.unfoldsTo {r t : TypeRecord} (step : g.StandsFor r t) : g.UnfoldsTo r t := by
  obtain ⟨kind, plain, derived, other, found⟩ := step
  exact ⟨_, TypeRecord.mem_unfolding (.material kind derived other) (by simp [TypeRecord.scalar?, kind, plain]),
    found⟩

theorem rightUnique_standsFor (g : Graph) : Relator.RightUnique g.StandsFor := by
  rintro r t u ⟨kind, _, derived, _, found⟩ ⟨kind', _, derived', _, found'⟩
  cases kind.symm.trans kind'
  cases derived.symm.trans derived'
  exact Option.some.inj (found.symm.trans found')

theorem EndsAt.unique {r t u : TypeRecord} (ends : g.EndsAt r t) (ends' : g.EndsAt r u) : t = u := by
  -- Of two chains from one type the shorter is the start of the longer, and it ends where nothing follows.
  rcases ReflTransGen.total_of_right_unique g.rightUnique_standsFor ends.chain ends'.chain with onward | onward
  · rcases onward.cases_head with same | ⟨next, step, _⟩
    · exact same
    · exact absurd step (ends.last next)
  · rcases onward.cases_head with same | ⟨next, step, _⟩
    · exact same.symm
    · exact absurd step (ends'.last next)

theorem EndsAt.mem {r t : TypeRecord} (ends : g.EndsAt r t) (member : r ∈ g.records) : t ∈ g.records :=
  mem_of_reflTransGen (ReflTransGen.mono (fun _ _ => StandsFor.unfoldsTo) _ _ ends.chain) member

variable (wellFormed : IsWellFormed g.records)
include wellFormed

theorem exists_endsAt (r : TypeRecord) : ∃ t, g.EndsAt r t := by
  induction wellFormed.wellFounded_unfoldsTo.apply r with
  | intro r _ ih =>
    by_cases onward : ∃ t, g.StandsFor r t
    · obtain ⟨t, step⟩ := onward
      obtain ⟨u, chain, last⟩ := ih t step.unfoldsTo
      exact ⟨u, .head step chain, last⟩
    · exact ⟨r, .refl, not_exists.mp onward⟩

/-- A scalar that is no enum ends the chain if it has no material or names itself as its material. -/
theorem material_of_last {t : TypeRecord} {scalar : ScalarType} (member : t ∈ g.records)
    (kind : t.kind = .scalar scalar) (plain : scalar.isEnum = false) (last : ∀ u, ¬g.StandsFor t u) :
    scalar.material = none ∨ scalar.material = some t.id := by
  cases derived : scalar.material with
  | none => exact Or.inl rfl
  | some id =>
    refine Or.inr (congrArg some ?_)
    by_contra other
    have derives : t.DerivesFrom id := .material kind derived other
    obtain ⟨u, found⟩ := wellFormed.exists_mentioned member derives.mentions
    exact last u (.material kind plain derived other found)

end Chains
end Graph

theorem ScalarType.isMaterial_iff {scalar : ScalarType} :
    scalar.isMaterial = true ↔ scalar.isAbstract = false ∧ scalar.isEnum = false ∧ scalar.material = none := by
  simp [isMaterial, and_assoc]

namespace Scope

theorem mem_materialScalars_iff {s : Scope} {t : TypeRecord} {scalar : ScalarType}
    (found : s.graph.get? t.id = some t)
    (kind : t.kind = .scalar scalar) : t ∈ s.materialScalars ↔ t.id ∈ s.order.ids ∧ scalar.isMaterial = true := by
  have listed : t ∈ s.order.recordsReversed s.graph ↔ t.id ∈ s.order.ids := by
    rw [TypeOrder.recordsReversed, List.mem_filterMap]
    constructor
    · rintro ⟨id, inOrder, found'⟩
      rw [Graph.id_of_get? found']
      exact List.mem_reverse.mp inOrder
    · exact fun inOrder => ⟨t.id, List.mem_reverse.mpr inOrder, found⟩
  have material : (t.scalar?.any ScalarType.isMaterial) = scalar.isMaterial := by simp [TypeRecord.scalar?, kind]
  rw [materialScalars, List.mem_filter, listed, material]

/-- Every scalar that is compared has its own case in the map. -/
theorem case_mem_scalarMatrix_lines {s : Scope} {t : TypeRecord} (compared : t ∈ s.materialScalars)
    (casts : CastMap) (mapName : String) :
    .text 1 ("A extends " ++ quoted t.name ++ " ?") ∈ (s.scalarMatrix casts).lines mapName := by
  have names : (s.scalarMatrix casts).names = (s.materialScalars.map TypeRecord.candidate).map Candidate.name :=
    CastMatrix.names_nodes _ casts
  have named : t.name ∈ (s.scalarMatrix casts).names := by
    rw [names]
    exact List.mem_map_of_mem (List.mem_map_of_mem compared)
  refine List.mem_append_right _ (text_succ_mem_nested_iff.mpr (List.mem_append_left _ ?_))
  exact List.mem_flatMap.mpr ⟨t.name, named, List.mem_cons_self ..⟩

section Built

variable {s : Scope} (wellFormed : Graph.IsWellFormed s.graph.records)
include wellFormed

theorem typeExpr_of_endsAt {r t : TypeRecord} {scalar : ScalarType} (member : r ∈ s.graph.records)
    (ends : s.graph.EndsAt r t) (kind : t.kind = .scalar scalar) (plain : scalar.isEnum = false)
    (referencing : String) : s.typeExpr referencing r.id = .ok (.primitive (.ofScalar t.name)) := by
  have own := Graph.get?_of_mem wellFormed.ids_nodup (ends.mem member)
  rw [typeExpr_of_standsFor wellFormed (Graph.get?_of_mem wellFormed.ids_nodup member) ends.chain,
    typeExpr_eq wellFormed, represent, Graph.resolve_eq_ok_iff.mpr own]
  rcases Graph.material_of_last wellFormed (ends.mem member) kind plain ends.last with derived | derived
  · simp [kind, plain, derived]
  · simp [kind, plain, derived]

end Built

/-- The materials of each type end at one type. If that is a scalar and no enum, its own primitive
is the type of the values. Unless it is abstract, it is then compared with the other scalars
wherever the order lists it, except that a scalar which names itself as its material is left out. -/
theorem scalarMatrix_lists_deciding {records : List TypeRecord} {s : Scope}
    (built : Graph.build records = .ok s.graph) {r : TypeRecord} (member : r ∈ s.graph.records) :
    (∃! t, s.graph.EndsAt r t) ∧
      ∀ t scalar, s.graph.EndsAt r t → t.kind = .scalar scalar → scalar.isEnum = false →
        (∀ referencing, s.typeExpr referencing r.id = .ok (.primitive (.ofScalar t.name))) ∧
          (scalar.isAbstract = false →
            (scalar.isMaterial = true ↔ scalar.material ≠ some t.id) ∧
              (t ∈ s.materialScalars ↔ t.id ∈ s.order.ids ∧ scalar.material ≠ some t.id) ∧
                (t.id ∈ s.order.ids → scalar.material ≠ some t.id → ∀ casts,
                  .text 1 ("A extends " ++ quoted t.name ++ " ?") ∈
                    (s.scalarMatrix casts).lines "getSharedParentScalar")) := by
  have wellFormed := Graph.isWellFormed_of_build built
  obtain ⟨u, ends'⟩ := Graph.exists_endsAt wellFormed r
  refine ⟨⟨u, ends', fun t ends => ends.unique ends'⟩, fun t scalar ends kind plain => ?_⟩
  refine ⟨typeExpr_of_endsAt wellFormed member ends kind plain, fun concrete => ?_⟩
  have own := Graph.get?_of_mem wellFormed.ids_nodup (ends.mem member)
  have material : scalar.isMaterial = true ↔ scalar.material ≠ some t.id := by
    rw [ScalarType.isMaterial_iff]
    rcases Graph.material_of_last wellFormed (ends.mem member) kind plain ends.last with derived | derived
    · simp [concrete, plain, derived]
    · simp [derived]
  have compared : t ∈ s.materialScalars ↔ t.id ∈ s.order.ids ∧ scalar.material ≠ some t.id := by
    rw [mem_materialScalars_iff own kind, material]
  exact ⟨material, compared, fun listed other casts =>
    case_mem_scalarMatrix_lines (compared.mpr ⟨listed, other⟩) casts _⟩

namespace OwnMaterial

/-- A scalar that names itself as its material. -/
def int : TypeRecord :=
  ⟨⟨"int"⟩, "std::int64", .scalar ⟨false, [], [], some ⟨"int"⟩⟩⟩

def str : TypeRecord :=
  ⟨⟨"str"⟩, "std::str", .scalar ⟨false, [], [], none⟩⟩

def age : TypeRecord :=
  ⟨⟨"age"⟩, "default::Age", .scalar ⟨false, [int.id], [], some int.id⟩⟩

def label : TypeRecord :=
  ⟨⟨"label"⟩, "default::Label", .scalar ⟨false, [str.id], [], some str.id⟩⟩

def user : TypeRecord :=
  ⟨⟨"user"⟩, "default::User", .object ⟨false, [], [], [],
    [⟨"age", .property, .one, age.id, none, []⟩, ⟨"label", .property, .one, label.id, none, []⟩]⟩⟩

def scope : Scope :=
  ⟨⟨[int, str, age, label, user]⟩, ⟨[int.id, str.id, age.id, label.id, user.id]⟩, { root := none }, none⟩

theorem endsAt_int : scope.graph.EndsAt age int := by
  refine ⟨.single (.material rfl rfl rfl (by decide) (by cbv)), ?_⟩
  rintro _ ⟨kind, _, derived, other, _⟩
  cases kind
  cases derived
  exact other rfl

theorem endsAt_str : scope.graph.EndsAt label str := by
  refine ⟨.single (.material rfl rfl rfl (by decide) (by cbv)), ?_⟩
  rintro _ ⟨kind, _, derived, _, _⟩
  cases kind
  cases derived

/-- The integers decide the type of a property, and yet the map has no case for them. -/
theorem int_is_left_out :
    Graph.build scope.graph.records = .ok scope.graph ∧ scope.graph.order = .ok scope.order ∧
      (age ∈ scope.graph.records ∧ scope.graph.EndsAt age int ∧
        scope.typeExpr user.name age.id = .ok (.primitive .number) ∧
        int.id ∈ scope.order.ids ∧ int ∉ scope.materialScalars ∧ (scope.scalarMatrix {}).names = [str.name]) ∧
      label ∈ scope.graph.records ∧ scope.graph.EndsAt label str ∧
        scope.typeExpr user.name label.id = .ok (.primitive .string) ∧ str ∈ scope.materialScalars ∧
        .text 1 "A extends \"std::str\" ?" ∈ (scope.scalarMatrix {}).lines "getSharedParentScalar" := by
  have built : Graph.build scope.graph.records = .ok scope.graph := by cbv
  have ordered : scope.graph.order = .ok scope.order := by cbv
  have ageListed : age ∈ scope.graph.records := by simp [scope]
  have labelListed : label ∈ scope.graph.records := by simp [scope]
  have intOrdered : int.id ∈ scope.order.ids := by simp [scope]
  have strOrdered : str.id ∈ scope.order.ids := by simp [scope]
  obtain ⟨_, byAge⟩ := scalarMatrix_lists_deciding built ageListed
  obtain ⟨_, byLabel⟩ := scalarMatrix_lists_deciding built labelListed
  obtain ⟨ageType, intCompared⟩ := byAge int _ endsAt_int rfl rfl
  obtain ⟨labelType, strCompared⟩ := byLabel str _ endsAt_str rfl rfl
  obtain ⟨_, intKept, _⟩ := intCompared rfl
  obtain ⟨_, strKept, strCase⟩ := strCompared rfl
  refine ⟨built, ordered, ⟨ageListed, endsAt_int, ageType user.name, intOrdered, ?_, by cbv⟩,
    labelListed, endsAt_str, labelType user.name, strKept.mpr ⟨strOrdered, by simp⟩, ?_⟩
  · intro kept
    exact (intKept.mp kept).2 rfl
  · exact strCase strOrdered (by simp) {}

end OwnMaterial
end Scope
end QueryShapes
