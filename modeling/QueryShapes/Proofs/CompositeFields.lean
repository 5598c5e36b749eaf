import QueryShapes.Proofs.ObjectLiteral

namespace QueryShapes

/-- The last member that gives a key gives its field. -/
def fieldsOf {β : Type} (give : Member → String → Option β) (members : List Member) : String → Option β :=
  fun key => members.reverse.findSome? fun m => give m key

section FieldsOf

variable {β : Type} {give : Member → String → Option β}

theorem fieldsOf_append (members later : List Member) (key : String) :
    fieldsOf give (members ++ later) key = (fieldsOf give later key).or (fieldsOf give members key) := by
  simp [fieldsOf, List.findSome?_append]

@[simp]
theorem fieldsOf_singleton (m : Member) (key : String) : fieldsOf give [m] key = give m key := by
  simp [fieldsOf]

theorem fieldsOf_cons (m : Member) (members : List Member) (key : String) :
    fieldsOf give (m :: members) key = (fieldsOf give members key).or (give m key) := by
  rw [← List.singleton_append, fieldsOf_append, fieldsOf_singleton]

theorem fieldsOf_isSome_iff {members : List Member} {key : String} :
    (fieldsOf give members key).isSome ↔ ∃ m ∈ members, (give m key).isSome := by
  simp [fieldsOf, List.findSome?_isSome_iff]

/-- Members may be dropped when what follows gives their fields anyway. -/
theorem fieldsOf_filter_append (keep : Member → Bool) {members later : List Member} {key : String}
    (covered : ∀ m ∈ members, keep m = false → (give m key).isSome → (fieldsOf give later key).isSome) :
    fieldsOf give (members.filter keep ++ later) key = fieldsOf give (members ++ later) key := by
  rw [fieldsOf_append, fieldsOf_append]
  cases given : fieldsOf give later key with
  | some body => rfl
  | none =>
    rw [Option.none_or, Option.none_or]
    induction members with
    | nil => rfl
    | cons m members ih =>
      have rest := ih fun m' member => covered m' (List.mem_cons_of_mem _ member)
      by_cases kept : keep m = true
      · rw [List.filter_cons_of_pos kept, fieldsOf_cons, fieldsOf_cons, rest]
      · have nothing : give m key = none := by
          by_contra some
          have later := covered m (List.mem_cons_self ..) (by simpa using kept) (Option.isSome_iff_ne_none.mpr some)
          rw [given] at later
          cases later
        rw [List.filter_cons_of_neg kept, fieldsOf_cons, rest, nothing, Option.or_none]

end FieldsOf

/-- Accessors of one name give the same keys. -/
def RespectsNames {β : Type} (give : Member → String → Option β) : Prop :=
  ∀ d d' : Descriptor, d.name = d'.name → ∀ key, (give (.getter d) key).isSome → (give (.getter d') key).isSome

namespace Composite

variable {β : Type} {give : Member → String → Option β}

theorem own_foldl_add (c : Composite) (inherited : List Member) : (inherited.foldl add c).own = c.own := by
  induction inherited generalizing c with
  | nil => rfl
  | cons m inherited ih =>
    rw [List.foldl_cons, ih]
    cases m <;> rfl

theorem sublist_foldl_add (c : Composite) (inherited : List Member) :
    (inherited.foldl add c).inherited.Sublist (c.inherited ++ inherited) := by
  induction inherited generalizing c with
  | nil => simp
  | cons m inherited ih =>
    have step : (c.add m).inherited.Sublist (c.inherited ++ [m]) := by
      cases m with
      | spread symbol => exact List.filter_sublist.append_right _
      | getter d => exact List.filter_sublist.append_right _
    simpa using (ih (c.add m)).trans (step.append_right inherited)

theorem sublist_foldl_addOwn (c : Composite) (own : List Descriptor) :
    (own.foldl addOwn c).members.Sublist (c.members ++ own.map .getter) := by
  induction own generalizing c with
  | nil => simp
  | cons d own ih =>
    have kept : (c.forget d.name).inherited.Sublist c.inherited := List.filter_sublist
    have step : (c.addOwn d).members.Sublist (c.members ++ [.getter d]) := by
      have appended : ((c.forget d.name).own ++ [d]).map Member.getter =
          c.own.map Member.getter ++ [Member.getter d] :=
        List.map_append ..
      rw [members, members, addOwn, List.append_assoc, appended]
      exact kept.append_right _
    simpa using (ih (c.addOwn d)).trans (step.append_right (own.map .getter))

/-- A composite adds nothing to its members. -/
theorem sublist_ofMembers (inherited : List Member) (own : List Descriptor) :
    (ofMembers inherited own).members.Sublist (inherited ++ own.map .getter) := by
  have collected : (inherited.foldl add {}).members.Sublist inherited := by
    rw [members, own_foldl_add]
    simpa using sublist_foldl_add {} inherited
  exact (sublist_foldl_addOwn _ own).trans (collected.append_right _)

theorem fieldsOf_forget (respects : RespectsNames give) (c : Composite) (d : Descriptor)
    (later : List Member) (defined : .getter d ∈ later) (key : String) :
    fieldsOf give ((c.forget d.name).inherited ++ later) key = fieldsOf give (c.inherited ++ later) key := by
  refine fieldsOf_filter_append _ fun m _ dropped given => ?_
  cases m with
  | spread symbol => simp [Member.isGetterOf] at dropped
  | getter d' =>
    have same : d'.name = d.name := by simpa [Member.isGetterOf] using dropped
    exact fieldsOf_isSome_iff.mpr ⟨_, defined, respects d' d same key given⟩

theorem fieldsOf_add (respects : RespectsNames give) (c : Composite) (m : Member) (key : String) :
    fieldsOf give (c.add m).inherited key = fieldsOf give (c.inherited ++ [m]) key := by
  cases m with
  | spread symbol =>
    refine fieldsOf_filter_append _ fun m _ dropped given => ?_
    cases m with
    | spread symbol' =>
      have same : symbol' = symbol := by simpa [Member.isSpreadOf] using dropped
      rw [fieldsOf_singleton, ← same]
      exact given
    | getter d => simp [Member.isSpreadOf] at dropped
  | getter d => exact fieldsOf_forget respects c d _ (List.mem_singleton.mpr rfl) key

theorem fieldsOf_foldl_add (respects : RespectsNames give) (c : Composite) (inherited : List Member)
    (key : String) :
    fieldsOf give (inherited.foldl add c).inherited key = fieldsOf give (c.inherited ++ inherited) key := by
  induction inherited generalizing c with
  | nil => rw [List.append_nil, List.foldl_nil]
  | cons m inherited ih =>
    rw [List.foldl_cons, ih, fieldsOf_append, fieldsOf_add respects, ← fieldsOf_append, List.append_assoc,
      List.singleton_append]

theorem fieldsOf_foldl_addOwn (respects : RespectsNames give) (c : Composite) (own : List Descriptor)
    (key : String) :
    fieldsOf give (own.foldl addOwn c).members key = fieldsOf give (c.members ++ own.map .getter) key := by
  induction own generalizing c with
  | nil => rw [List.map_nil, List.append_nil, List.foldl_nil]
  | cons d own ih =>
    have step : fieldsOf give (c.addOwn d).members key = fieldsOf give (c.members ++ [.getter d]) key := by
      have forgotten := fieldsOf_forget respects c d ((c.own ++ [d]).map .getter) (by simp) key
      simpa [members, addOwn, forget] using forgotten
    rw [List.foldl_cons, ih, fieldsOf_append, step, ← fieldsOf_append, List.append_assoc, List.map_cons,
      List.singleton_append]

/-- What a composite leaves out of its members is overridden by later ones anyway. -/
theorem fieldsOf_ofMembers (respects : RespectsNames give) (inherited : List Member) (own : List Descriptor)
    (key : String) :
    fieldsOf give (ofMembers inherited own).members key = fieldsOf give (inherited ++ own.map .getter) key := by
  have collected : (inherited.foldl add {}).members = (inherited.foldl add {}).inherited := by
    rw [members, own_foldl_add]
    simp
  rw [ofMembers, fieldsOf_foldl_addOwn respects, fieldsOf_append, collected, fieldsOf_foldl_add respects,
    ← fieldsOf_append, List.nil_append]

end Composite

namespace Member

/-- The fields that a member gives next to consts that are defined already. -/
def fields (lib : ClientLibrary) (env : String → Option Fields) : Member → Fields
  | spread symbol => (env symbol).getD fun _ => none
  | getter d => Function.update (fun _ => none) (memberKey d.name) (some (d.bodyLines lib))

/-- What a member copies from is defined. -/
def IsDefined (env : String → Option Fields) : Member → Prop
  | spread symbol => (env symbol).isSome
  | getter _ => True

theorem fields_getter_eq_some_iff {lib : ClientLibrary} {env : String → Option Fields} {d : Descriptor}
    {key : String} {body : List Line} :
    (getter d).fields lib env key = some body ↔ key = memberKey d.name ∧ body = d.bodyLines lib := by
  by_cases same : key = memberKey d.name
  · simp [fields, same, eq_comm]
  · simp [fields, same]

theorem respectsNames_fields (lib : ClientLibrary) (env : String → Option Fields) :
    RespectsNames (fields lib env) := by
  intro d d' same key given
  obtain ⟨body, given⟩ := Option.isSome_iff_exists.mp given
  obtain ⟨rfl, _⟩ := fields_getter_eq_some_iff.mp given
  exact Option.isSome_iff_exists.mpr ⟨_, fields_getter_eq_some_iff.mpr ⟨by rw [same], rfl⟩⟩

theorem define_literal {lib : ClientLibrary} {env : String → Option Fields} {m : Member}
    (defined : m.IsDefined env) (before : Fields) :
    (m.literal lib).define env before = some fun key => (m.fields lib env key).or (before key) := by
  cases m with
  | spread symbol =>
    obtain ⟨copied, found⟩ := Option.isSome_iff_exists.mp defined
    simp [literal, LiteralMember.define, fields, found]
  | getter d =>
    rw [literal, LiteralMember.define, Option.some_inj]
    funext key
    by_cases same : key = memberKey d.name
    · simp [fields, same]
    · simp [fields, same]

end Member

/-- The object of a const whose spreads are defined consists of the fields of its members. -/
theorem ObjectDefinition.fields_const {lib : ClientLibrary} {env : String → Option Fields} {d : ObjectDefinition}
    (defined : ∀ m ∈ d.composite.members, m.IsDefined env) :
    (d.const lib).fields env = some (fieldsOf (Member.fields lib env) d.composite.members) := by
  have fold (members : List Member) (defined : ∀ m ∈ members, m.IsDefined env) (before : Fields) :
      (members.map (Member.literal lib)).foldlM (LiteralMember.define env) before =
        some fun key => (fieldsOf (Member.fields lib env) members key).or (before key) := by
    induction members generalizing before with
    | nil => rfl
    | cons m members ih =>
      obtain ⟨here, later⟩ := List.forall_mem_cons.mp defined
      rw [List.map_cons, List.foldlM_cons, Member.define_literal here]
      refine (ih later _).trans ?_
      simp only [fieldsOf_cons, Option.or_assoc]
  rw [ConstDefinition.fields, const, fold _ defined]
  simp

end QueryShapes
