import Mathlib
import QueryShapes.Proofs.References
import QueryShapes.Proofs.Representations

namespace QueryShapes
open Relation

namespace Graph

/-- A scalar that is no enum stands for another one, its material. -/
inductive StandsFor (g : Graph) (r t : TypeRecord) : Prop
  | material {scalar id} : r.kind = .scalar scalar → scalar.isEnum = false → scalar.material = some id → id ≠ r.id →
      g.get? id = some t → StandsFor g r t

end Graph

namespace Scope

/-- How the type of the values of a type is spelled. -/
inductive SpellsType (s : Scope) : TypeId → String → Prop
  | primitive {id r t} : s.graph.get? id = some r → r.kind = .scalar t → t.isEnum = false →
      (∀ m, t.material = some m → m = r.id) → SpellsType s id (Primitive.ofScalar r.name).text
  | material {id r t m text} : s.graph.get? id = some r → r.kind = .scalar t → t.isEnum = false →
      t.material = some m → m ≠ r.id → SpellsType s m text → SpellsType s id text
  | keptEnum {id r t name} :
    s.graph.get? id = some r → r.kind = .scalar t → t.isEnum = true → s.keepsEnum r = true →
      r.qualifiedName = .ok name → SpellsType s id (name.moduleIdent ++ "Types." ++ name.localIdent)
  | elidedEnum {id r t} : s.graph.get? id = some r → r.kind = .scalar t → t.isEnum = true → s.keepsEnum r = false →
      SpellsType s id "string"
  | array {id r element text} : s.graph.get? id = some r → r.kind = .array element → SpellsType s element text →
      SpellsType s id ("Array<" ++ text ++ ">")
  | tuple {id r elements texts} : s.graph.get? id = some r → r.kind = .tuple elements → areNamed elements = false →
      List.Forall₂ (fun e text => SpellsType s e.target text) elements texts →
      SpellsType s id ("[" ++ String.intercalate ", " texts ++ "]")
  | record {id r elements texts} : s.graph.get? id = some r → r.kind = .tuple elements → areNamed elements = true →
      List.Forall₂ (fun e text => SpellsType s e.target text) elements texts →
      SpellsType s id ("\x7b" ++ String.intercalate ", "
        (List.zipWith (fun e text => memberKey e.name ++ ": " ++ text) elements texts) ++ "\x7d")

theorem fieldTexts_zip (elements : List TupleElement) (types : List TypeExpr) :
    TypeExpr.fieldTexts ((elements.map TupleElement.name).zip types) =
      List.zipWith (fun e text => memberKey e.name ++ ": " ++ text) elements (types.map TypeExpr.text) := by
  rw [TypeExpr.fieldTexts_eq_map, List.zip, List.map_zipWith, List.zipWith_map_left, List.zipWith_map_right]

/-- Whatever stands on the path, a type that is found is spelled as the unfolding says. -/
theorem spellsType_of_typeExprFrom {s : Scope} {path : List TypeId} {referencing : String} {id : TypeId}
    {e : TypeExpr} (represented : s.typeExprFrom path referencing id = .ok e) : s.SpellsType id e.text := by
  fun_induction typeExprFrom s path referencing id generalizing e with
  | case1 | case2 | case8 | case10 => cases represented
  | case3 path referencing id r found new t kind isEnum kept =>
    obtain ⟨name, named, rfl⟩ := map_eq_ok_iff.mp represented
    exact .keptEnum (Graph.get?_of_resolve found) kind isEnum kept named
  | case4 path referencing id r found new t kind isEnum elided =>
    cases represented
    exact .elidedEnum (Graph.get?_of_resolve found) kind isEnum (by simpa using elided)
  | case5 path referencing id r found new t kind plain none =>
    cases represented
    exact .primitive (Graph.get?_of_resolve found) kind (by simpa using plain) (by simp [none])
  | case6 path referencing id r found new t kind plain derived =>
    cases represented
    exact .primitive (Graph.get?_of_resolve found) kind (by simpa using plain) (by simp [derived])
  | case7 path referencing id r found new t kind plain material derived other ih =>
    exact .material (Graph.get?_of_resolve found) kind (by simpa using plain) derived other (ih represented)
  | case9 path referencing id r found new element kind ih =>
    obtain ⟨inner, within, rfl⟩ := map_eq_ok_iff.mp represented
    rw [TypeExpr.text]
    exact .array (Graph.get?_of_resolve found) kind (ih within)
  | case11 path referencing id r found new elements kind types mapped named ih =>
    cases represented
    have each : List.Forall₂ (fun e text => s.SpellsType e.target text) elements (types.map TypeExpr.text) :=
      List.forall₂_map_right_iff.mpr ((mapM_eq_ok_iff.mp mapped).imp fun e _ => ih e)
    rw [TypeExpr.text, fieldTexts_zip]
    exact .record (Graph.get?_of_resolve found) kind named each
  | case12 path referencing id r found new elements kind types mapped unnamed ih =>
    cases represented
    have each : List.Forall₂ (fun e text => s.SpellsType e.target text) elements (types.map TypeExpr.text) :=
      List.forall₂_map_right_iff.mpr ((mapM_eq_ok_iff.mp mapped).imp fun e _ => ih e)
    rw [TypeExpr.text, TypeExpr.texts_eq_map]
    exact .tuple (Graph.get?_of_resolve found) kind (by simpa using unnamed) each

section Built

variable {s : Scope} (wellFormed : Graph.IsWellFormed s.graph.records)
include wellFormed

/-- Whoever asks for a type that is there gets the same. -/
theorem typeExpr_congr {id : TypeId} {r : TypeRecord} (found : s.graph.get? id = some r)
    (referencing referencing' : String) : s.typeExpr referencing id = s.typeExpr referencing' id := by
  rw [typeExpr_eq wellFormed referencing, typeExpr_eq wellFormed referencing', represent, represent,
    Graph.resolve_eq_ok_iff.mpr found, Graph.resolve_eq_ok_iff.mpr found]

/-- A spelling is that of the type which is found. By induction on the unfolding, since a spelling
holds those of the elements of a tuple in a list. -/
theorem typeExpr_of_spellsType {id : TypeId} {r : TypeRecord} (found : s.graph.get? id = some r) {text : String}
    (spelled : s.SpellsType id text) (referencing : String) :
    ∃ e, s.typeExpr referencing id = .ok e ∧ e.text = text := by
  induction wellFormed.wellFounded_unfoldsTo.apply r generalizing id text referencing with
  | intro r _ ih =>
    have below {id' : TypeId} {text' : String} (derives : r.DerivesFrom id')
        (noEnum : r.scalar?.any ScalarType.isEnum = false) (within : s.SpellsType id' text') :
        ∃ e, s.typeExpr r.name id' = .ok e ∧ e.text = text' := by
      have listed := TypeRecord.mem_unfolding derives noEnum
      obtain ⟨t, found'⟩ := wellFormed.exists_unfolding (Graph.mem_of_get? found) listed
      exact ih t ⟨id', listed, found'⟩ found' within r.name
    rw [typeExpr_eq wellFormed, represent, Graph.resolve_eq_ok_iff.mpr found]
    cases spelled with
    | @primitive _ _ t found' kind plain own =>
      cases found.symm.trans found'
      refine ⟨.primitive (.ofScalar r.name), ?_, rfl⟩
      cases derived : t.material with
      | none => simp [kind, plain, derived]
      | some m => simp [kind, plain, derived, own m derived]
    | material found' kind plain derived other within =>
      cases found.symm.trans found'
      have noEnum : r.scalar?.any ScalarType.isEnum = false := by simp [TypeRecord.scalar?, kind, plain]
      obtain ⟨e, represented, spelled⟩ := below (.material kind derived other) noEnum within
      exact ⟨e, by simp [kind, plain, derived, other, represented], spelled⟩
    | @keptEnum _ _ _ name found' kind isEnum kept named =>
      cases found.symm.trans found'
      exact ⟨.enumeration name, by simp [kind, isEnum, kept, named, Except.map], by rw [TypeExpr.text]⟩
    | elidedEnum found' kind isEnum elided =>
      cases found.symm.trans found'
      exact ⟨.primitive .string, by simp [kind, isEnum, elided], rfl⟩
    | array found' kind within =>
      cases found.symm.trans found'
      obtain ⟨e, represented, rfl⟩ := below (.arrayElement kind) (by simp [TypeRecord.scalar?, kind]) within
      exact ⟨.array e, by simp [kind, represented, Except.map], by rw [TypeExpr.text]⟩
    | tuple found' kind unnamed each =>
      cases found.symm.trans found'
      obtain ⟨types, mapped, rfl⟩ := exists_mapM_of_forall₂ each fun e member text within =>
        below (.tupleElement kind member) (by simp [TypeRecord.scalar?, kind]) within
      exact ⟨.tuple types, by simp [kind, mapped, unnamed], by rw [TypeExpr.text, TypeExpr.texts_eq_map]⟩
    | @record _ _ elements _ found' kind named each =>
      cases found.symm.trans found'
      obtain ⟨types, mapped, rfl⟩ := exists_mapM_of_forall₂ each fun e member text within =>
        below (.tupleElement kind member) (by simp [TypeRecord.scalar?, kind]) within
      exact ⟨.record ((elements.map TupleElement.name).zip types), by simp [kind, mapped, named],
        by rw [TypeExpr.text, fieldTexts_zip]⟩

/-- A scalar has the type of its material, and so of the last in a chain of materials. -/
theorem typeExpr_of_standsFor {r t : TypeRecord} (own : s.graph.get? r.id = some r)
    (chain : ReflTransGen s.graph.StandsFor r t) (referencing : String) :
    s.typeExpr referencing r.id = s.typeExpr referencing t.id := by
  induction chain using ReflTransGen.head_induction_on with
  | refl => rfl
  | @head r u step _ ih =>
    obtain ⟨kind, plain, derived, other, found⟩ := step
    cases Graph.id_of_get? found
    rw [← ih found, typeExpr_eq wellFormed, represent, Graph.resolve_eq_ok_iff.mpr own]
    simp only [kind, plain, derived, other, Bool.false_eq_true, ↓reduceIte]
    exact typeExpr_congr wellFormed found r.name referencing

/-- The first object to which a type unfolds is the reason why it has no type. -/
theorem typeExpr_error_iff {r : TypeRecord} {id : TypeId} (found : s.graph.get? id = some r) (referencing : String)
    (e : SchemaError) :
    s.typeExpr referencing id = .error e ↔ ∃ o, s.graph.FirstObject r o ∧ e = .wrongKind o "scalar" := by
  refine ⟨fun failed => firstObject_of_typeExpr wellFormed found failed, ?_⟩
  rintro ⟨o, first, rfl⟩
  induction first generalizing id referencing with
  | here isObject => rw [typeExpr_eq wellFormed, represent_object found isObject]
  | @deeper r t o before id' after parts objectless found' _ ih =>
    have member := Graph.mem_of_get? found
    have noObject : r.isObject = false := by
      by_contra isObject
      rw [TypeRecord.unfolding_object (by simpa using isObject)] at parts
      simp at parts
    obtain ⟨assemble, built⟩ := isAssembled wellFormed member noObject
    rw [typeExpr_eq wellFormed, built _ _ _ found, map_eq_error_iff]
    refine mapM_eq_error_iff.mpr ⟨before, id', after, parts, fun id'' earlier => ?_, ih found' r.name⟩
    obtain ⟨b, there⟩ := wellFormed.exists_unfolding member (by simp [parts, earlier] : id'' ∈ r.unfolding)
    exact (exists_typeExpr_iff wellFormed there r.name).mpr (objectless id'' earlier b there)

/-- Some object comes first wherever one is reached. -/
theorem exists_firstObject_iff {r : TypeRecord} {id : TypeId} (found : s.graph.get? id = some r) :
    (∃ o, s.graph.FirstObject r o) ↔ ∃ o, ReflTransGen s.graph.UnfoldsTo r o ∧ o.isObject = true := by
  constructor
  · rintro ⟨o, first⟩
    exact ⟨o, first.reached⟩
  · rintro ⟨o, path, isObject⟩
    cases outcome : s.typeExpr r.name id with
    | ok e =>
      rw [objectless_of_typeExpr wellFormed found outcome path] at isObject
      cases isObject
    | error e =>
      obtain ⟨o', first, _⟩ := firstObject_of_typeExpr wellFormed found outcome
      exact ⟨o', first⟩

end Built

/-- The type of the values of a type is found by unfolding it, which always comes to an end. It is
missing just where an object is reached, with the first of these as the reason. A scalar has the
type of the one at the end of its materials. -/
theorem typeExpr_spells_unfolding {records : List TypeRecord} {s : Scope}
    (built : Graph.build records = .ok s.graph) :
    (WellFounded fun t r => s.graph.UnfoldsTo r t) ∧ s.typeExpr = s.represent s.typeExpr ∧
      ∀ r ∈ s.graph.records, ∀ referencing,
        (∀ e, s.typeExpr referencing r.id = .error e ↔ ∃ o, s.graph.FirstObject r o ∧ e = .wrongKind o "scalar") ∧
          ((∃ o, s.graph.FirstObject r o) ↔ ∃ o, ReflTransGen s.graph.UnfoldsTo r o ∧ o.isObject = true) ∧
            (∀ text, (s.typeExpr referencing r.id).map TypeExpr.text = .ok text ↔ s.SpellsType r.id text) ∧
              ∀ t, ReflTransGen s.graph.StandsFor r t →
                s.typeExpr referencing r.id = s.typeExpr referencing t.id := by
  have wellFormed := Graph.isWellFormed_of_build built
  have unfolds : s.typeExpr = s.represent s.typeExpr := by
    funext referencing id
    exact typeExpr_eq wellFormed referencing id
  refine ⟨wellFormed.wellFounded_unfoldsTo, unfolds, fun r member referencing => ?_⟩
  have own := Graph.get?_of_mem wellFormed.ids_nodup member
  refine ⟨typeExpr_error_iff wellFormed own referencing, exists_firstObject_iff wellFormed own,
    fun text => ⟨fun represented => ?_, fun spelled => ?_⟩, fun t chain => ?_⟩
  · obtain ⟨e, found, rfl⟩ := map_eq_ok_iff.mp represented
    exact spellsType_of_typeExprFrom found
  · exact map_eq_ok_iff.mpr (typeExpr_of_spellsType wellFormed own spelled referencing)
  · exact typeExpr_of_standsFor wellFormed own chain referencing

namespace StandIns

def str : TypeRecord :=
  ⟨⟨"str"⟩, "std::str", .scalar ⟨false, [], [], none⟩⟩

def label : TypeRecord :=
  ⟨⟨"label"⟩, "default::Label", .scalar ⟨false, [str.id], [], some str.id⟩⟩

/-- A scalar whose material has a material in turn. -/
def code : TypeRecord :=
  ⟨⟨"code"⟩, "default::Code", .scalar ⟨false, [label.id], [], some label.id⟩⟩

def color : TypeRecord :=
  ⟨⟨"color"⟩, "default::Color", .scalar ⟨false, [], ["Red"], none⟩⟩

def mood : TypeRecord :=
  ⟨⟨"mood"⟩, "sys::Mood", .scalar ⟨false, [], ["Glad"], none⟩⟩

def codes : TypeRecord :=
  ⟨⟨"codes"⟩, "array<default::Code>", .array code.id⟩

def entry : TypeRecord :=
  ⟨⟨"entry"⟩, "tuple<codes:array<default::Code>, color:default::Color>",
    .tuple [⟨"codes", codes.id⟩, ⟨"color", color.id⟩]⟩

def page : TypeRecord :=
  ⟨⟨"page"⟩, "tuple<tuple, sys::Mood>", .tuple [⟨"", entry.id⟩, ⟨"", mood.id⟩]⟩

def user : TypeRecord :=
  ⟨⟨"user"⟩, "default::User", .object ⟨false, [], [], [], []⟩⟩

def post : TypeRecord :=
  ⟨⟨"post"⟩, "default::Post", .object ⟨false, [], [], [], []⟩⟩

def users : TypeRecord :=
  ⟨⟨"users"⟩, "array<default::User>", .array user.id⟩

/-- A tuple with two elements that unfold to objects. -/
def thread : TypeRecord :=
  ⟨⟨"thread"⟩, "tuple<array<default::Code>, array<default::User>, default::Post>",
    .tuple [⟨"", codes.id⟩, ⟨"", users.id⟩, ⟨"", post.id⟩]⟩

def scope : Scope :=
  ⟨⟨[thread, page, entry, users, codes, code, label, str, color, mood, user, post]⟩, ⟨[]⟩, {}, none⟩

theorem spells_page :
    Graph.build scope.graph.records = .ok scope.graph ∧
      (page ∈ scope.graph.records ∧ (scope.typeExpr thread.name page.id).map TypeExpr.text =
        .ok "[\x7bcodes: Array<string>, color: defaultTypes.Color\x7d, string]") ∧
      (thread ∈ scope.graph.records ∧ ∃ o, scope.graph.FirstObject thread o ∧ o.name = user.name) ∧
      code ∈ scope.graph.records ∧ ReflTransGen scope.graph.StandsFor code str ∧
        scope.typeExpr thread.name code.id = scope.typeExpr thread.name str.id := by
  have built : Graph.build scope.graph.records = .ok scope.graph := by cbv
  have pageListed : page ∈ scope.graph.records := by simp [scope]
  have entryListed : entry ∈ scope.graph.records := by simp [scope]
  have threadListed : thread ∈ scope.graph.records := by simp [scope]
  have codeListed : code ∈ scope.graph.records := by simp [scope]
  obtain ⟨_, _, represented⟩ := typeExpr_spells_unfolding built
  obtain ⟨_, _, pageSpelled, _⟩ := represented page pageListed thread.name
  obtain ⟨_, _, entrySpelled, _⟩ := represented entry entryListed page.name
  obtain ⟨fails, _⟩ := represented thread threadListed thread.name
  obtain ⟨_, _, _, same⟩ := represented code codeListed thread.name
  have inEntry := (entrySpelled "\x7bcodes: Array<string>, color: defaultTypes.Color\x7d").mp (by cbv)
  have inMood : scope.SpellsType mood.id "string" := .elidedEnum (by cbv) rfl rfl (by cbv)
  have onPage := SpellsType.tuple (by cbv : scope.graph.get? page.id = some page) rfl (by decide)
    (.cons inEntry (.cons inMood .nil))
  have failed : scope.typeExpr thread.name thread.id = .error (.wrongKind user "scalar") := by cbv
  obtain ⟨o, first, sameError⟩ := (fails _).mp failed
  have sameName : user.name = o.name := (SchemaError.unexpectedKind.inj sameError).1
  have chain : ReflTransGen scope.graph.StandsFor code str :=
    .head (.material rfl rfl rfl (by decide) (by cbv)) (.single (.material rfl rfl rfl (by decide) (by cbv)))
  exact ⟨built, ⟨pageListed, (pageSpelled _).mpr onPage⟩, ⟨threadListed, o, first, sameName.symm⟩, codeListed,
    chain, same str chain⟩

end StandIns
end Scope
end QueryShapes
