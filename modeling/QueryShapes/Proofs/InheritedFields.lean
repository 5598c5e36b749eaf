import Mathlib
import QueryShapes.Proofs.EmittedFields

namespace QueryShapes
open Relation

namespace Scope

/-- What is emitted for a pointer that the named type declares. -/
def accessor (s : Scope) (owner : TypeRecord) (p : Pointer) : Except GenerationError (List Line) :=
  (s.describe owner.name p).map (·.bodyLines s.config.library)

end Scope

namespace SharedBase

def tag (target : String) : Pointer :=
  ⟨"tag", .property, .one, ⟨target⟩, none, []⟩

def hidden : TypeRecord :=
  ⟨⟨"hidden"⟩, "sys::Hidden", .object ⟨false, [], [], [], [tag "int"]⟩⟩

def named : TypeRecord :=
  ⟨⟨"named"⟩, "default::Named", .object ⟨false, [], [], [], [tag "str"]⟩⟩

def wrap : TypeRecord :=
  ⟨⟨"wrap"⟩, "sys::Wrap", .object ⟨false, [⟨"hidden"⟩], [], [], []⟩⟩

/-- Lists the base without a shape twice, the second time through another one, and a
kept base with the same field in between. -/
def user : TypeRecord :=
  ⟨⟨"user"⟩, "default::User", .object ⟨false, [⟨"hidden"⟩, ⟨"named"⟩, ⟨"wrap"⟩], [], [], []⟩⟩

def snapshot : Snapshot where
  types := [⟨⟨"str"⟩, "std::str", .scalar ⟨false, [], [], none⟩⟩,
    ⟨⟨"int"⟩, "std::int64", .scalar ⟨false, [], [], none⟩⟩, hidden, named, wrap, user]
  casts := []

def config : Config :=
  Config.withoutRoot {}

def scope : Scope :=
  ⟨⟨snapshot.types⟩, ⟨snapshot.types.map TypeRecord.id⟩, config, none⟩

theorem scope_eq : snapshot.scope config = .ok scope := by
  cbv

theorem shapeTypes_eq : scope.shapeTypes = [named, user] := by
  cbv

theorem inheritances_user : scope.inheritances user = .ok [.elided hidden, .kept named, .elided wrap] := by
  have keptNamed : scope.keepsShape named = true := by cbv
  have elidedHidden : scope.keepsShape hidden = false := by cbv
  have elidedWrap : scope.keepsShape wrap = false := by cbv
  have again : scope.Walks wrap.bases [⟨"wrap"⟩, ⟨"hidden"⟩] [.again hidden] [⟨"wrap"⟩, ⟨"hidden"⟩] :=
    .again (by rfl) elidedHidden (by decide) .nil
  have last : scope.Walks [⟨"wrap"⟩] [⟨"hidden"⟩] ([Meeting.again hidden] ++ [Meeting.elided wrap])
      [⟨"wrap"⟩, ⟨"hidden"⟩] :=
    .elided (by rfl) elidedWrap (by decide) again .nil
  have walk : scope.Walks user.bases []
      ([] ++ Meeting.elided hidden :: .kept named :: ([Meeting.again hidden] ++ [Meeting.elided wrap]))
      [⟨"wrap"⟩, ⟨"hidden"⟩] :=
    .elided (by rfl) elidedHidden (by decide) .nil (.kept (by rfl) keptNamed last)
  exact Scope.inheritances_of_walks walk

def descriptor (type : Primitive) : Descriptor :=
  ⟨"tag", .property, .one, .property (.primitive type), []⟩

theorem declared_hidden : scope.declared hidden = .ok [descriptor .number] := by
  cbv

theorem declared_named : scope.declared named = .ok [descriptor .string] := by
  cbv

theorem accessor_ne : scope.accessor hidden (tag "int") ≠ scope.accessor named (tag "str") := by
  cbv
  simp

theorem isDistinct : scope.IsDistinct := by
  have names : (scope.graph.records.map TypeRecord.name).Nodup := by decide
  have shapes {r : TypeRecord} (member : r ∈ scope.graph.records) (kept : scope.keepsShape r = true) :
      r = named ∨ r = user := by
    have isShape := ((Scope.of_snapshot scope_eq).1.mem_shapeTypes_iff names).mpr ⟨member, kept⟩
    simpa [shapeTypes_eq] using isShape
  have apart : Scope.symbolOf named ≠ Scope.symbolOf user := by
    cbv
    simp
  refine ⟨names, fun r member r' member' kept kept' same => ?_⟩
  rcases shapes member kept with rfl | rfl <;> rcases shapes member' kept' with rfl | rfl
  · rfl
  · exact absurd same apart
  · exact absurd same.symm apart
  · rfl

def objects : List ObjectDefinition :=
  [⟨⟨"default", "Named"⟩, .ofMembers [] [descriptor .string]⟩,
    ⟨⟨"default", "User"⟩, .ofMembers [.getter (descriptor .number), .spread "default_Named"] []⟩]

theorem objectDefinitions_eq : scope.objectDefinitions = .ok objects := by
  have nameOfNamed : named.qualifiedName = .ok ⟨"default", "Named"⟩ := by cbv
  have nameOfUser : user.qualifiedName = .ok ⟨"default", "User"⟩ := by cbv
  have symbol : Scope.symbolOf named = .ok "default_Named" := by cbv
  have groupOfHidden : scope.inheritedMembers (.elided hidden) = .ok [.getter (descriptor .number)] :=
    map_eq_ok_iff.mpr ⟨_, declared_hidden, rfl⟩
  have groupOfNamed : scope.inheritedMembers (.kept named) = .ok [.spread "default_Named"] := by
    rw [Scope.inheritedMembers, symbol]
    rfl
  have noBases : scope.inheritances named = .ok [] := by cbv
  have composedNamed : scope.composite named = .ok (.ofMembers [] [descriptor .string]) :=
    Scope.composite_eq_ok_iff.mpr ⟨[], [], _, noBases, .nil, declared_named, rfl⟩
  have composedUser :
      scope.composite user = .ok (.ofMembers [.getter (descriptor .number), .spread "default_Named"] []) :=
    Scope.composite_eq_ok_iff.mpr ⟨_, _, [], inheritances_user,
      .cons groupOfHidden (.cons groupOfNamed (.cons rfl .nil)), rfl, rfl⟩
  rw [Scope.objectDefinitions_eq_ok_iff, shapeTypes_eq]
  exact .cons ⟨nameOfNamed, composedNamed⟩ (.cons ⟨nameOfUser, composedUser⟩ .nil)

def generation : Generation :=
  scope.emission (.ofImplicit snapshot.casts) [] objects

theorem generate_eq : snapshot.generate config = .ok generation := by
  have enums : scope.enumerations = .ok [] := by cbv
  exact Snapshot.generate_eq_ok_iff.mpr
    ⟨scope, scope_eq, Scope.generate_eq_ok_iff.mpr ⟨_, _, enums, objectDefinitions_eq, rfl⟩⟩

theorem keepsShape_user : scope.keepsShape user = true := by
  cbv

theorem provides_user : scope.graph.Provides "tag" user hidden (tag "int") := by
  have own : scope.graph.Provides "tag" hidden hidden (tag "int") := .own rfl
  have basesOfWrap : wrap.bases = [] ++ ⟨"hidden"⟩ :: [] := rfl
  have basesOfUser : user.bases = [⟨"hidden"⟩, ⟨"named"⟩] ++ ⟨"wrap"⟩ :: [] := rfl
  have through : scope.graph.Provides "tag" wrap hidden (tag "int") :=
    .inherited rfl basesOfWrap rfl (List.forall_mem_nil _) own
  exact .inherited rfl basesOfUser rfl (List.forall_mem_nil _) through

theorem emits_user : scope.Emits "tag" user named (tag "str") := by
  have last : ∀ i ∈ [Inheritance.elided wrap], ¬scope.Gives "tag" i := by
    simp [Scope.Gives, TypeRecord.pointer?, TypeRecord.pointers, wrap]
  have collected : scope.inheritances user =
      .ok ([Inheritance.elided hidden] ++ Inheritance.kept named :: [.elided wrap]) :=
    inheritances_user
  exact .kept rfl collected last (.own rfl)

end SharedBase

namespace Generation

end Generation

namespace Generation

/-- Every field of a kept type's object is the pointer that the type is emitted with.
The one that later bases shadowing earlier ones provides is there exactly if both look the
same, so always where no base without a shape is met twice. -/
theorem provided_iff_emitted {snapshot : Snapshot} {config : Config} {g : Generation} {s : Scope}
    (generated : snapshot.generate config = .ok g) (made : snapshot.scope config = .ok s)
    (distinct : s.IsDistinct) :
    ∀ r ∈ snapshot.types, s.keepsShape r = true → ∃ symbol fields,
      Scope.symbolOf r = .ok symbol ∧ g.Denotes symbol fields ∧
        ∀ key, (fields key).isSome → ∃ f owner p body owner' p' body', key = memberKey f ∧
          (∀ o q, s.graph.Provides f r o q ↔ o = owner ∧ q = p) ∧ s.accessor owner p = .ok body ∧
          (∀ o q, s.Emits f r o q ↔ o = owner' ∧ q = p') ∧ s.accessor owner' p' = .ok body' ∧
          fields key = some body' ∧ (fields key = some body ↔ body' = body) ∧
          ((∀ k, ReflTransGen s.graph.IsBase r k → s.keepsShape k = true → ¬s.Repeats f k) →
            owner' = owner ∧ p' = p) := by
  intro r member kept
  have isGenerated := Snapshot.isGenerated generated made distinct
  rw [← (Scope.of_snapshot made).2] at member
  obtain ⟨symbol, fields, named, denotes, realizes⟩ := isGenerated.denotes r member kept
  refine ⟨symbol, fields, named, denotes, fun key given => ?_⟩
  obtain ⟨f, rfl, has⟩ := realizes.sound key given
  have acc := isGenerated.acc member
  have collects := isGenerated.collects member
  obtain ⟨owner, p, provides⟩ := has.exists_provides acc
  obtain ⟨path, declared⟩ := provides.declared
  obtain ⟨d, described⟩ := isGenerated.exists_describe member kept path (TypeRecord.mem_of_pointer? declared)
  obtain ⟨owner', p', emits⟩ := Scope.exists_emits acc collects kept has
  obtain ⟨d', described', held⟩ := realizes.emitted f owner' p' emits
  refine ⟨f, owner, p, _, owner', p', _, rfl, fun o q => ⟨fun other => other.unique provides, ?_⟩,
    map_eq_ok_iff.mpr ⟨d, described, rfl⟩, fun o q => ⟨fun other => other.unique emits, ?_⟩,
    map_eq_ok_iff.mpr ⟨d', described', rfl⟩, held, ?_, fun once => ?_⟩
  · rintro ⟨rfl, rfl⟩
    exact provides
  · rintro ⟨rfl, rfl⟩
    exact emits
  · rw [held, Option.some_inj]
  · exact emits.unique (Scope.emits_of_provides acc collects kept once provides)

end Generation

/-- The type that lists a base twice is emitted with the field of the type in between,
though the base comes again behind it. -/
theorem SharedBase.shadowing_user :
    snapshot.generate config = .ok generation ∧ snapshot.scope config = .ok scope ∧ scope.IsDistinct ∧
      ∃ symbol fields body, Scope.symbolOf user = .ok symbol ∧ generation.Denotes symbol fields ∧
        scope.graph.Provides "tag" user hidden (tag "int") ∧ scope.accessor hidden (tag "int") = .ok body ∧
        (fields (memberKey "tag")).isSome ∧ fields (memberKey "tag") ≠ some body := by
  obtain ⟨symbol, fields, symbolOf, denotes, rule⟩ :=
    Generation.provided_iff_emitted generate_eq scope_eq isDistinct user (by simp [snapshot]) keepsShape_user
  have isGenerated := Snapshot.isGenerated generate_eq scope_eq isDistinct
  obtain ⟨symbol', fields', symbolOf', denotes', realizes⟩ :=
    isGenerated.denotes user (by simp [scope, snapshot]) keepsShape_user
  cases symbolOf.symm.trans symbolOf'
  cases denotes.unique denotes'
  obtain ⟨d, _, held⟩ := realizes.emitted "tag" named (tag "str") emits_user
  have given : (fields (memberKey "tag")).isSome := Option.isSome_iff_exists.mpr ⟨_, held⟩
  obtain ⟨f, owner, p, body, owner', p', body', key, provided, ruled, emitted, shown, _, exactly, _⟩ := rule _ given
  cases memberKey_inj key
  obtain ⟨rfl, rfl⟩ := (provided hidden (tag "int")).mp provides_user
  obtain ⟨rfl, rfl⟩ := (emitted named (tag "str")).mp emits_user
  refine ⟨generate_eq, scope_eq, isDistinct, symbol, fields, body, symbolOf, denotes, provides_user, ruled,
    given, ?_⟩
  intro same
  rw [exactly.mp same, ← ruled] at shown
  exact accessor_ne shown.symm

end QueryShapes
