import QueryShapes.Proofs.CompositeFields
import QueryShapes.Proofs.Emission
import QueryShapes.Proofs.FieldOrigin
import QueryShapes.Proofs.QuotedText

namespace QueryShapes
open Relation

namespace Scope

/-- The fields of members as the library of a scope spells them. -/
abbrev memberFields (s : Scope) (env : String → Option Fields) : Member → Fields :=
  Member.fields s.config.library env

theorem name_of_describe {s : Scope} {owner : String} {p : Pointer} {d : Descriptor}
    (described : s.describe owner p = .ok d) : d.name = p.name := by
  simp only [describe, bind_eq_ok_iff, pure, Except.pure, Except.ok.injEq] at described
  obtain ⟨target, _, properties, _, rfl⟩ := described
  rfl

section Declared

variable {s : Scope} {r : TypeRecord} {own : List Descriptor} (env : String → Option Fields)

/-- The accessor of a declared field is that of the last pointer with its name. -/
theorem fieldsOf_declared (declared : s.declared r = .ok own) (f : String) :
    r.pointer? f = none ∧ fieldsOf (s.memberFields env) (own.map .getter) (memberKey f) = none ∨
      ∃ p d, r.pointer? f = some p ∧ s.describe r.name p = .ok d ∧
        fieldsOf (s.memberFields env) (own.map .getter) (memberKey f) = some (d.bodyLines s.config.library) := by
  have related := List.forall₂_reverse_iff.mpr (mapM_eq_ok_iff.mp declared)
  unfold fieldsOf TypeRecord.pointer?
  rw [← List.map_reverse, List.findSome?_map]
  generalize r.pointers.reverse = pointers at related ⊢
  generalize own.reverse = descriptors at related ⊢
  induction related with
  | nil => exact Or.inl ⟨rfl, rfl⟩
  | @cons p d _ _ described _ ih =>
    have name := name_of_describe described
    by_cases same : p.name = f
    · have given : (Member.getter d).fields s.config.library env (memberKey f) =
          some (d.bodyLines s.config.library) :=
        Member.fields_getter_eq_some_iff.mpr ⟨by rw [name, same], rfl⟩
      exact Or.inr ⟨p, d, by simp [same], described, by simp [given]⟩
    · have nothing : (Member.getter d).fields s.config.library env (memberKey f) = none := by
        refine Option.eq_none_iff_forall_ne_some.mpr fun body given => ?_
        obtain ⟨sameKey, _⟩ := Member.fields_getter_eq_some_iff.mp given
        exact same (name ▸ (memberKey_inj sameKey).symm)
      simpa [same, nothing] using ih

theorem exists_pointer_of_declared (declared : s.declared r = .ok own) {d : Descriptor} (member : d ∈ own)
    {key : String} (given : ((Member.getter d).fields s.config.library env key).isSome) :
    ∃ f, key = memberKey f ∧ (r.pointer? f).isSome := by
  obtain ⟨body, given⟩ := Option.isSome_iff_exists.mp given
  obtain ⟨rfl, _⟩ := Member.fields_getter_eq_some_iff.mp given
  obtain ⟨p, inPointers, described⟩ := exists_of_forall₂_right (mapM_eq_ok_iff.mp declared) member
  exact ⟨d.name, rfl, TypeRecord.pointer?_isSome_iff.mpr ⟨p, inPointers, (name_of_describe described).symm⟩⟩

end Declared

/-- An object holds the pointers that its type is emitted with, and no other fields
than those that the type has. -/
structure Realizes (s : Scope) (r : TypeRecord) (fields : Fields) : Prop where
  emitted : ∀ f owner p, s.Emits f r owner p →
    ∃ d, s.describe owner.name p = .ok d ∧ fields (memberKey f) = some (d.bodyLines s.config.library)
  sound : ∀ key, (fields key).isSome → ∃ f, key = memberKey f ∧ s.graph.HasField f r

theorem Realizes.eq_none {s : Scope} {r : TypeRecord} {fields : Fields} (realizes : s.Realizes r fields)
    {f : String} (lacks : ¬s.graph.HasField f r) : fields (memberKey f) = none := by
  by_contra given
  obtain ⟨f', same, has⟩ := realizes.sound _ (Option.isSome_iff_ne_none.mpr given)
  exact lacks (memberKey_inj same ▸ has)

/-- Under the symbol of a type an object is defined that realizes it. -/
def IsRealized (s : Scope) (env : String → Option Fields) (r : TypeRecord) : Prop :=
  ∃ symbol fields, symbolOf r = .ok symbol ∧ env symbol = some fields ∧ s.Realizes r fields

section Inherited

variable {s : Scope} {env : String → Option Fields}

theorem IsRealized.of_symbol {base : TypeRecord} (realized : s.IsRealized env base) {symbol : String}
    (named : symbolOf base = .ok symbol) : ∃ fields, env symbol = some fields ∧ s.Realizes base fields := by
  obtain ⟨symbol', fields, named', defined, realizes⟩ := realized
  cases named.symm.trans named'
  exact ⟨fields, defined, realizes⟩

theorem members_of_kept {base : TypeRecord} {group : List Member}
    (members : s.inheritedMembers (.kept base) = .ok group) (realized : s.IsRealized env base) :
    ∃ symbol fields, group = [.spread symbol] ∧ env symbol = some fields ∧ s.Realizes base fields := by
  simp only [inheritedMembers, mapError_eq_ok_iff, map_eq_ok_iff] at members
  obtain ⟨symbol, named, rfl⟩ := members
  obtain ⟨fields, defined, realizes⟩ := realized.of_symbol named
  exact ⟨symbol, fields, rfl, defined, realizes⟩

theorem members_of_elided {base : TypeRecord} {group : List Member}
    (members : s.inheritedMembers (.elided base) = .ok group) :
    ∃ own, s.declared base = .ok own ∧ group = own.map .getter := by
  obtain ⟨own, declared, rfl⟩ := map_eq_ok_iff.mp members
  exact ⟨own, declared, rfl⟩

theorem fieldsOf_spread {symbol : String} {fields : Fields} (defined : env symbol = some fields) (key : String) :
    fieldsOf (s.memberFields env) [.spread symbol] key = fields key := by
  simp [Member.fields, defined]

theorem fieldsOf_group_eq_none {i : Inheritance} {group : List Member} (members : s.inheritedMembers i = .ok group)
    (realized : ∀ base, i = .kept base → s.IsRealized env base) {f : String} (nothing : ¬s.Gives f i) :
    fieldsOf (s.memberFields env) group (memberKey f) = none := by
  cases i with
  | kept base =>
    obtain ⟨symbol, fields, rfl, defined, realizes⟩ := members_of_kept members (realized base rfl)
    rw [fieldsOf_spread defined]
    exact realizes.eq_none nothing
  | elided base =>
    obtain ⟨own, declared, rfl⟩ := members_of_elided members
    rcases fieldsOf_declared env declared f with ⟨_, absent⟩ | ⟨p, _, declares, _⟩
    · exact absent
    · exact absurd (Option.isSome_iff_exists.mpr ⟨p, declares⟩) nothing

theorem fieldsOf_groups_eq_none {found : List Inheritance} {groups : List (List Member)}
    (members : List.Forall₂ (fun i group => s.inheritedMembers i = .ok group) found groups)
    (realized : ∀ base, .kept base ∈ found → s.IsRealized env base) {f : String}
    (nothing : ∀ i ∈ found, ¬s.Gives f i) :
    fieldsOf (s.memberFields env) groups.flatten (memberKey f) = none := by
  induction members with
  | nil => rfl
  | @cons i group found groups here _ ih =>
    obtain ⟨first, later⟩ := List.forall_mem_cons.mp nothing
    rw [List.flatten_cons, fieldsOf_append,
      ih (fun base member => realized base (List.mem_cons_of_mem _ member)) later,
      fieldsOf_group_eq_none here (fun base same => realized base (same ▸ List.mem_cons_self ..)) first]
    rfl

/-- The last inheritance that gives a field decides what the inherited members hold for it. -/
theorem fieldsOf_groups_last {before after : List Inheritance} {i : Inheritance} {groups : List (List Member)}
    (members : List.Forall₂ (fun i group => s.inheritedMembers i = .ok group) (before ++ i :: after) groups)
    (realized : ∀ base, .kept base ∈ before ++ i :: after → s.IsRealized env base) {f : String}
    (nothing : ∀ j ∈ after, ¬s.Gives f j) :
    ∃ group, s.inheritedMembers i = .ok group ∧ ∀ body,
      fieldsOf (s.memberFields env) group (memberKey f) = some body →
        fieldsOf (s.memberFields env) groups.flatten (memberKey f) = some body := by
  obtain ⟨first, rest, rfl, _, members⟩ := split_of_forall₂_append members
  obtain _ | ⟨here, later⟩ := members
  rename_i group groups
  have silent := fieldsOf_groups_eq_none later (fun base member => realized base (by simp [member])) nothing
  refine ⟨group, here, fun body given => ?_⟩
  rw [List.flatten_append, List.flatten_cons, fieldsOf_append, fieldsOf_append, silent, given]
  rfl

end Inherited

/-- All kept bases of a type are realized. -/
def IsReady (s : Scope) (env : String → Option Fields) (r : TypeRecord) : Prop :=
  ∀ k, TransGen s.graph.IsBase r k → s.keepsShape k = true → s.IsRealized env k

section Composite

variable {s : Scope} {env : String → Option Fields} {r : TypeRecord} {c : Composite}

/-- A member of a composite spreads a kept base, or comes from a pointer that the type
or one of its bases declares. -/
theorem origin_of_mem_composite (composed : s.composite r = .ok c) {m : Member} (member : m ∈ c.members) :
    (∃ base symbol, TransGen s.graph.IsBase r base ∧ s.keepsShape base = true ∧ symbolOf base = .ok symbol ∧
      m = .spread symbol) ∨
      ∃ owner own d, ReflTransGen s.graph.IsBase r owner ∧ s.declared owner = .ok own ∧ d ∈ own ∧
        m = .getter d := by
  obtain ⟨found, groups, own, collected, members, declared, rfl⟩ := composite_eq_ok_iff.mp composed
  rcases List.mem_append.mp ((Composite.sublist_ofMembers _ _).subset member) with inherited | isOwn
  · obtain ⟨group, inGroups, inGroup⟩ := List.mem_flatten.mp inherited
    obtain ⟨i, inFound, members⟩ := exists_of_forall₂_right members inGroups
    obtain ⟨keptBelow, elidedBelow⟩ := transGen_of_inheritances collected
    cases i with
    | kept base =>
      simp only [inheritedMembers, mapError_eq_ok_iff, map_eq_ok_iff] at members
      obtain ⟨symbol, named, rfl⟩ := members
      obtain ⟨path, kept⟩ := keptBelow base inFound
      exact Or.inl ⟨base, symbol, path, kept, named, List.mem_singleton.mp inGroup⟩
    | elided base =>
      obtain ⟨own, declared, rfl⟩ := members_of_elided members
      obtain ⟨d, inOwn, rfl⟩ := List.mem_map.mp inGroup
      exact Or.inr ⟨base, own, d, (elidedBelow base inFound).to_reflTransGen, declared, inOwn, rfl⟩
  · obtain ⟨d, inOwn, rfl⟩ := List.mem_map.mp isOwn
    exact Or.inr ⟨r, own, d, .refl, declared, inOwn, rfl⟩

theorem isDefined_of_mem_composite (composed : s.composite r = .ok c) (ready : s.IsReady env r) {m : Member}
    (member : m ∈ c.members) : m.IsDefined env := by
  rcases origin_of_mem_composite composed member with
    ⟨base, symbol, path, kept, named, rfl⟩ | ⟨_, _, _, _, _, _, rfl⟩
  · obtain ⟨fields, defined, _⟩ := (ready base path kept).of_symbol named
    exact Option.isSome_iff_exists.mpr ⟨fields, defined⟩
  · trivial

theorem hasField_of_fieldsOf_composite (composed : s.composite r = .ok c) (ready : s.IsReady env r) {key : String}
    (given : (fieldsOf (s.memberFields env) c.members key).isSome) :
    ∃ f, key = memberKey f ∧ s.graph.HasField f r := by
  obtain ⟨m, member, given⟩ := fieldsOf_isSome_iff.mp given
  rcases origin_of_mem_composite composed member with ⟨base, symbol, path, kept, named, rfl⟩ |
    ⟨owner, own, d, path, declared, inOwn, rfl⟩
  · obtain ⟨fields, defined, realizes⟩ := (ready base path kept).of_symbol named
    obtain ⟨f, same, has⟩ := realizes.sound key (by simpa [Member.fields, defined] using given)
    exact ⟨f, same, .of_reflTransGen path.to_reflTransGen has⟩
  · obtain ⟨f, same, declares⟩ := exists_pointer_of_declared env declared inOwn given
    exact ⟨f, same, .of_reflTransGen path (Graph.hasField_of_pointer? declares)⟩

theorem fieldsOf_composite_of_emits (composed : s.composite r = .ok c) (ready : s.IsReady env r) {f : String}
    {owner : TypeRecord} {p : Pointer} (emits : s.Emits f r owner p) :
    ∃ d, s.describe owner.name p = .ok d ∧
      fieldsOf (s.memberFields env) c.members (memberKey f) = some (d.bodyLines s.config.library) := by
  obtain ⟨found, groups, own, collected, members, declared, rfl⟩ := composite_eq_ok_iff.mp composed
  have realized : ∀ base, .kept base ∈ found → s.IsRealized env base := by
    intro base member
    obtain ⟨path, kept⟩ := (transGen_of_inheritances collected).1 base member
    exact ready base path kept
  rw [Composite.fieldsOf_ofMembers (Member.respectsNames_fields _ _), fieldsOf_append]
  rcases fieldsOf_declared env declared f with ⟨absent, silent⟩ | ⟨p', d, declares, described, held⟩
  · rw [silent, Option.none_or]
    cases emits with
    | own declares =>
      rw [absent] at declares
      cases declares
    | @kept _ before base after _ _ _ collected' nothing emits =>
      cases collected.symm.trans collected'
      obtain ⟨group, here, decides⟩ := fieldsOf_groups_last members realized nothing
      obtain ⟨symbol, fields, rfl, defined, realizes⟩ := members_of_kept here (realized base (by simp))
      obtain ⟨d, described, held⟩ := realizes.emitted f owner p emits
      exact ⟨d, described, decides _ (by rw [fieldsOf_spread defined, held])⟩
    | elided _ collected' nothing declares =>
      cases collected.symm.trans collected'
      obtain ⟨group, here, decides⟩ := fieldsOf_groups_last members realized nothing
      obtain ⟨own', declared', rfl⟩ := members_of_elided here
      rcases fieldsOf_declared env declared' f with ⟨lacks, _⟩ | ⟨p', d, declares', described, held⟩
      · rw [lacks] at declares
        cases declares
      · cases declares.symm.trans declares'
        exact ⟨d, described, decides _ held⟩
  · rw [held, Option.some_or]
    cases emits with
    | own declares' =>
      cases declares.symm.trans declares'
      exact ⟨d, described, rfl⟩
    | kept absent | elided absent =>
      rw [absent] at declares
      cases declares

/-- The composite of a type realizes it where its kept bases are realized. -/
theorem realizes_composite (composed : s.composite r = .ok c) (ready : s.IsReady env r) :
    s.Realizes r (fieldsOf (s.memberFields env) c.members) :=
  ⟨fun _ _ _ emits => fieldsOf_composite_of_emits composed ready emits,
    fun _ given => hasField_of_fieldsOf_composite composed ready given⟩

end Composite

theorem symbolOf_of_qualifiedName {r : TypeRecord} {name : QualifiedName} (named : r.qualifiedName = .ok name) :
    symbolOf r = .ok name.symbol :=
  map_eq_ok_iff.mpr ⟨name, named, rfl⟩

theorem IsRealized.update {s : Scope} {env : String → Option Fields} {r : TypeRecord}
    (realized : s.IsRealized env r) {symbol : String} (other : symbolOf r ≠ .ok symbol) (fields : Fields) :
    s.IsRealized (Function.update env symbol (some fields)) r := by
  obtain ⟨symbol', fields', named, defined, realizes⟩ := realized
  have apart : symbol' ≠ symbol := fun same => other (same ▸ named)
  exact ⟨symbol', fields', named, by rw [Function.update_of_ne apart, defined], realizes⟩

/-- The consts that are evaluated so far are those of the done types, each realized. -/
structure Evaluated (s : Scope) (done : List TypeRecord) (env : String → Option Fields) : Prop where
  realized : ∀ r ∈ done, s.IsRealized env r
  only : ∀ symbol, (env symbol).isSome → ∃ r ∈ done, symbolOf r = .ok symbol

/-- One more const is evaluated, the next type being based on done ones alone. -/
theorem Evaluated.snoc {s : Scope} {done : List TypeRecord} {env : String → Option Fields}
    (evaluated : s.Evaluated done env) {r : TypeRecord} {d : ObjectDefinition}
    (named : r.qualifiedName = .ok d.name) (composed : s.composite r = .ok d.composite)
    (bases : ∀ k, TransGen s.graph.IsBase r k → s.keepsShape k = true → k ∈ done)
    (new : ∀ r' ∈ done, symbolOf r' ≠ symbolOf r) :
    ∃ fields, env d.symbol = none ∧ (d.const s.config.library).fields env = some fields ∧
      s.Evaluated (done ++ [r]) (Function.update env d.symbol (some fields)) := by
  have symbol : symbolOf r = .ok d.symbol := symbolOf_of_qualifiedName named
  have ready : s.IsReady env r := fun k path kept => evaluated.realized k (bases k path kept)
  have realizes := realizes_composite composed ready
  have object : (d.const s.config.library).fields env = some (fieldsOf (s.memberFields env) d.composite.members) :=
    ObjectDefinition.fields_const fun m member => isDefined_of_mem_composite composed ready member
  refine ⟨_, ?_, object, ?_, ?_⟩
  · by_contra defined
    obtain ⟨r', member, same⟩ := evaluated.only d.symbol (Option.isSome_iff_ne_none.mpr defined)
    exact new r' member (same.trans symbol.symm)
  · intro r' member
    rcases List.mem_append.mp member with before | last
    · exact (evaluated.realized r' before).update (symbol ▸ new r' before) _
    · cases List.mem_singleton.mp last
      exact ⟨d.symbol, _, symbol, Function.update_self .., realizes⟩
  · intro other defined
    by_cases same : other = d.symbol
    · exact ⟨r, by simp, same ▸ symbol⟩
    · rw [Function.update_of_ne same] at defined
      obtain ⟨r', member, named'⟩ := evaluated.only other defined
      exact ⟨r', List.mem_append_left _ member, named'⟩

/-- All consts are evaluated when the types come bases first. -/
theorem Evaluated.run {s : Scope} {done todo : List TypeRecord} {objects : List ObjectDefinition}
    (defined : List.Forall₂ (fun r d => r.qualifiedName = .ok d.name ∧
      s.composite r = .ok d.composite) todo objects)
    {env : String → Option Fields} (evaluated : s.Evaluated done env)
    (bases : ∀ r ∈ todo, ∀ k, TransGen s.graph.IsBase r k → s.keepsShape k = true → k ∈ done ++ todo)
    (founded : ∀ r ∈ todo, ¬TransGen s.graph.IsBase r r)
    (basesFirst : todo.Pairwise fun r base => ¬TransGen s.graph.IsBase r base)
    (symbols : (done ++ todo).Pairwise fun r r' => symbolOf r ≠ symbolOf r') :
    ∃ env', evaluateConsts env (objects.map (·.const s.config.library)) = some env' ∧
      s.Evaluated (done ++ todo) env' := by
  induction defined generalizing done env with
  | nil => exact ⟨env, rfl, by rwa [List.append_nil]⟩
  | @cons r d todo objects here _ ih =>
    obtain ⟨named, composed⟩ := here
    obtain ⟨first, later⟩ := List.pairwise_cons.mp basesFirst
    have ready : ∀ k, TransGen s.graph.IsBase r k → s.keepsShape k = true → k ∈ done := by
      intro k path kept
      rcases List.mem_append.mp (bases r (List.mem_cons_self ..) k path kept) with before | after
      · exact before
      · rcases List.mem_cons.mp after with rfl | after
        · exact absurd path (founded k (List.mem_cons_self ..))
        · exact absurd path (first k after)
    have new : ∀ r' ∈ done, symbolOf r' ≠ symbolOf r :=
      fun r' member => (List.pairwise_append.mp symbols).2.2 r' member r (List.mem_cons_self ..)
    obtain ⟨fields, free, object, step⟩ := evaluated.snoc named composed ready new
    have joined : done ++ r :: todo = done ++ [r] ++ todo := by simp
    rw [joined] at symbols bases ⊢
    obtain ⟨env', rest, evaluated'⟩ := ih step (fun r' member => bases r' (List.mem_cons_of_mem _ member))
      (fun r' member => founded r' (List.mem_cons_of_mem _ member)) later symbols
    refine ⟨env', ?_, evaluated'⟩
    have free : env (d.const s.config.library).symbol = none := free
    rw [List.map_cons, evaluateConsts, free, object]
    exact rest

end Scope

/-- Evaluating the consts of the base unit in order gives an object under the symbol. -/
def Generation.Denotes (g : Generation) (symbol : String) (fields : Fields) : Prop :=
  ∃ unit env, g.tree.get? baseUnit = some unit ∧
    evaluateConsts (fun _ => none) (constsOf unit.body) = some env ∧ env symbol = some fields

theorem Generation.Denotes.unique {g : Generation} {symbol : String} {fields fields' : Fields}
    (denotes : g.Denotes symbol fields) (denotes' : g.Denotes symbol fields') : fields = fields' := by
  obtain ⟨unit, env, found, evaluated, defined⟩ := denotes
  obtain ⟨unit', env', found', evaluated', defined'⟩ := denotes'
  cases found.symm.trans found'
  cases evaluated.symm.trans evaluated'
  exact Option.some.inj (defined.symm.trans defined')

namespace Scope

/-- Types differ by name, and those that get a shape also by symbol. -/
structure IsDistinct (s : Scope) : Prop where
  names : (s.graph.records.map TypeRecord.name).Nodup
  symbols : ∀ r ∈ s.graph.records, ∀ r' ∈ s.graph.records, s.keepsShape r = true → s.keepsShape r' = true →
    symbolOf r = symbolOf r' → r = r'

theorem exists_composite {s : Scope} (ordered : s.IsOrdered) (distinct : s.IsDistinct)
    {objects : List ObjectDefinition}
    (defined : s.objectDefinitions = .ok objects) {r : TypeRecord} (member : r ∈ s.graph.records)
    (kept : s.keepsShape r = true) : ∃ c, s.composite r = .ok c := by
  have related := objectDefinitions_eq_ok_iff.mp defined
  have isShape := (ordered.mem_shapeTypes_iff distinct.names).mpr ⟨member, kept⟩
  obtain ⟨d, _, _, composed⟩ := exists_of_forall₂_left related isShape
  exact ⟨_, composed⟩

/-- The base unit denotes an object for every kept type, and the object realizes the type. -/
theorem exists_denotes {s : Scope} (ordered : s.IsOrdered) (distinct : s.IsDistinct) {casts : CastMap}
    {g : Generation} (generated : s.generate casts = .ok g) {r : TypeRecord} (member : r ∈ s.graph.records)
    (kept : s.keepsShape r = true) :
    ∃ symbol fields, symbolOf r = .ok symbol ∧ g.Denotes symbol fields ∧ s.Realizes r fields := by
  obtain ⟨enums, objects, _, defined, rfl⟩ := generate_eq_ok_iff.mp generated
  obtain ⟨unit, found, body, _⟩ := get?_baseUnit_emission s casts enums objects
  have shapes {r : TypeRecord} := ordered.mem_shapeTypes_iff distinct.names (r := r)
  have symbols : s.shapeTypes.Pairwise fun r r' => symbolOf r ≠ symbolOf r' := by
    refine ordered.nodup_shapeTypes.imp_of_mem fun {r r'} isShape isShape' different same => different ?_
    obtain ⟨member, kept⟩ := shapes.mp isShape
    obtain ⟨member', kept'⟩ := shapes.mp isShape'
    exact distinct.symbols r member r' member' kept kept' same
  have start : s.Evaluated [] fun _ => none := ⟨by simp, by simp⟩
  have bases : ∀ r ∈ s.shapeTypes, ∀ k, TransGen s.graph.IsBase r k → s.keepsShape k = true → k ∈ s.shapeTypes := by
    intro r isShape k path kept
    exact shapes.mpr ⟨Graph.mem_of_reflTransGen path.to_reflTransGen (shapes.mp isShape).1, kept⟩
  have founded : ∀ r ∈ s.shapeTypes, ¬TransGen s.graph.IsBase r r := by
    intro r isShape
    have acc := Graph.acc_isBase_of_order ordered.wellFormed distinct.names ordered.ordered (shapes.mp isShape).1
    exact Graph.not_transGen_of_acc acc
  obtain ⟨env, ran, evaluated⟩ := start.run (objectDefinitions_eq_ok_iff.mp defined) bases founded
    (ordered.pairwise_shapeTypes distinct.names) symbols
  obtain ⟨symbol, fields, named, isDefined, realizes⟩ := evaluated.realized r (shapes.mpr ⟨member, kept⟩)
  refine ⟨symbol, fields, named, ⟨unit, env, found, ?_, isDefined⟩, realizes⟩
  rw [body, constsOf_baseBody]
  exact ran

/-- What is known of a scope once it is generated. -/
structure IsGenerated (s : Scope) (g : Generation) : Prop where
  ordered : s.IsOrdered
  distinct : s.IsDistinct
  composes : ∀ r ∈ s.graph.records, s.keepsShape r = true → ∃ c, s.composite r = .ok c
  denotes : ∀ r ∈ s.graph.records, s.keepsShape r = true →
    ∃ symbol fields, symbolOf r = .ok symbol ∧ g.Denotes symbol fields ∧ s.Realizes r fields

theorem IsGenerated.acc {s : Scope} {g : Generation} (generated : s.IsGenerated g) {r : TypeRecord}
    (member : r ∈ s.graph.records) : Acc (TransGen fun b r => s.graph.IsBase r b) r :=
  generated.ordered.acc generated.distinct.names member

theorem IsGenerated.collects {s : Scope} {g : Generation} (generated : s.IsGenerated g) {r : TypeRecord}
    (member : r ∈ s.graph.records) :
    ∀ k, ReflTransGen s.graph.IsBase r k → s.keepsShape k = true → ∃ found, s.inheritances k = .ok found := by
  intro k path kept
  obtain ⟨c, composed⟩ := generated.composes k (Graph.mem_of_reflTransGen path member) kept
  obtain ⟨found, _, _, collected, _⟩ := composite_eq_ok_iff.mp composed
  exact ⟨found, collected⟩

/-- Whatever a kept type may inherit has been described. -/
theorem IsGenerated.exists_describe {s : Scope} {g : Generation} (generated : s.IsGenerated g) {r : TypeRecord}
    (member : r ∈ s.graph.records) (kept : s.keepsShape r = true) {owner : TypeRecord}
    (path : ReflTransGen s.graph.IsBase r owner) {p : Pointer} (declared : p ∈ owner.pointers) :
    ∃ d, s.describe owner.name p = .ok d := by
  have described {own : List Descriptor} (all : s.declared owner = .ok own) :
      ∃ d, s.describe owner.name p = .ok d := by
    obtain ⟨d, _, here⟩ := exists_of_forall₂_left (mapM_eq_ok_iff.mp all) declared
    exact ⟨d, here⟩
  induction generated.acc member with
  | intro r _ ih =>
    obtain ⟨c, composed⟩ := generated.composes r member kept
    obtain ⟨found, groups, own, collected, members, all, _⟩ := composite_eq_ok_iff.mp composed
    rcases reflTransGen_iff_eq_or_transGen.mp path with rfl | path
    · exact described all
    · obtain ⟨meetings, seen, walk, rfl⟩ := walks_of_inheritances collected
      rcases walk.covers path with elided | ⟨k, met, path⟩
      · have inherited : .elided owner ∈ meetings.filterMap Meeting.inheritance? :=
          List.mem_filterMap.mpr ⟨_, elided, rfl⟩
        obtain ⟨group, _, group'⟩ := exists_of_forall₂_left members inherited
        obtain ⟨own, all, _⟩ := members_of_elided group'
        exact described all
      · have inherited : .kept k ∈ meetings.filterMap Meeting.inheritance? := List.mem_filterMap.mpr ⟨_, met, rfl⟩
        obtain ⟨below, keeps⟩ := (transGen_of_inheritances collected).1 k inherited
        exact ih k (transGen_swap.mpr below) (Graph.mem_of_reflTransGen below.to_reflTransGen member) keeps path

end Scope

theorem Snapshot.isGenerated {snapshot : Snapshot} {config : Config} {g : Generation} {s : Scope}
    (generated : snapshot.generate config = .ok g) (made : snapshot.scope config = .ok s)
    (distinct : s.IsDistinct) : s.IsGenerated g := by
  obtain ⟨s', made', emitted⟩ := Snapshot.generate_eq_ok_iff.mp generated
  cases made.symm.trans made'
  obtain ⟨ordered, _⟩ := Scope.of_snapshot made
  obtain ⟨_, _, _, defined, _⟩ := Scope.generate_eq_ok_iff.mp emitted
  exact ⟨ordered, distinct, fun r member kept => Scope.exists_composite ordered distinct defined member kept,
    fun r member kept => Scope.exists_denotes ordered distinct emitted member kept⟩

end QueryShapes
