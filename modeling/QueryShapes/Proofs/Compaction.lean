import Mathlib.Data.List.Induction
import QueryShapes.Proofs.CompositeFields

namespace QueryShapes

/-- An element that takes the place of all that are like it occurs once. -/
theorem countP_replaced_le_one {α : Type} {p like : α → Bool} {list : List α} {a : α} (once : list.countP p ≤ 1)
    (alike : p a = true → ∀ b, p b = true → like b = true) :
    (list.filter (fun b => !like b) ++ [a]).countP p ≤ 1 := by
  rw [List.countP_append, List.countP_singleton]
  by_cases counted : p a = true
  · have dropped : (list.filter fun b => !like b).countP p = 0 := by
      refine List.countP_eq_zero.mpr fun b kept holds => ?_
      have unlike := (List.mem_filter.mp kept).2
      rw [alike counted b holds] at unlike
      cases unlike
    simp [dropped, counted]
  · have fewer : (list.filter fun b => !like b).countP p ≤ list.countP p := List.filter_sublist.countP_le
    rw [if_neg counted]
    omega

namespace Member

/-- The descriptors that a member gives by name, where each symbol stands for an object. -/
def given (env : String → String → Option Descriptor) : Member → String → Option Descriptor
  | spread symbol => env symbol
  | getter d => Function.update (fun _ => none) d.name (some d)

/-- The object that a literal denotes when one more member is read. -/
def define (env : String → String → Option Descriptor) (object : String → Option Descriptor) :
    Member → String → Option Descriptor
  | spread symbol => fun name => (env symbol name).or (object name)
  | getter d => Function.update object d.name (some d)

theorem define_eq (env : String → String → Option Descriptor) (object : String → Option Descriptor) (m : Member) :
    m.define env object = fun name => (m.given env name).or (object name) := by
  cases m with
  | spread symbol => rfl
  | getter d =>
    funext name
    by_cases same : name = d.name
    · simp [define, given, same]
    · simp [define, given, same]

theorem respectsNames_given (env : String → String → Option Descriptor) : RespectsNames (given env) := by
  intro d d' same name given
  by_cases named : name = d.name
  · simp [Member.given, named, same]
  · simp [Member.given, named] at given

end Member

/-- The object that a literal with the members denotes. -/
def evaluate (env : String → String → Option Descriptor) (members : List Member) : String → Option Descriptor :=
  members.foldl (Member.define env) fun _ => none

theorem evaluate_eq_fieldsOf (env : String → String → Option Descriptor) (members : List Member) :
    evaluate env members = fieldsOf (Member.given env) members := by
  induction members using List.reverseRecOn with
  | nil => rfl
  | append_singleton members m ih =>
    funext name
    rw [evaluate, List.foldl_append, List.foldl_cons, List.foldl_nil, ← evaluate, ih, Member.define_eq,
      fieldsOf_append, fieldsOf_singleton]

namespace Composite

/-- No symbol is spread twice and no name has two inherited accessors. -/
structure IsCompact (c : Composite) : Prop where
  spreads : ∀ symbol, c.inherited.countP (Member.isSpreadOf symbol) ≤ 1
  getters : ∀ name, c.inherited.countP (Member.isGetterOf name) ≤ 1

theorem IsCompact.add {c : Composite} (compact : c.IsCompact) (m : Member) : (c.add m).IsCompact := by
  cases m with
  | spread symbol =>
    refine ⟨fun symbol' => countP_replaced_le_one (compact.spreads symbol') fun same m spread => ?_,
      fun name => countP_replaced_le_one (compact.getters name) fun impossible => ?_⟩
    · have same : symbol = symbol' := by simpa [Member.isSpreadOf] using same
      rwa [same]
    · cases impossible
  | getter d =>
    refine ⟨fun symbol => countP_replaced_le_one (compact.spreads symbol) fun impossible => ?_,
      fun name => countP_replaced_le_one (compact.getters name) fun same m getter => ?_⟩
    · cases impossible
    · have same : d.name = name := by simpa [Member.isGetterOf] using same
      rwa [same]

theorem IsCompact.addOwn {c : Composite} (compact : c.IsCompact) (d : Descriptor) : (c.addOwn d).IsCompact := by
  have fewer (p : Member → Bool) : (c.addOwn d).inherited.countP p ≤ c.inherited.countP p :=
    List.filter_sublist.countP_le
  exact ⟨fun symbol => Nat.le_trans (fewer _) (compact.spreads symbol),
    fun name => Nat.le_trans (fewer _) (compact.getters name)⟩

theorem isCompact_ofMembers (inherited : List Member) (own : List Descriptor) :
    (ofMembers inherited own).IsCompact := by
  have empty : ({} : Composite).IsCompact := ⟨fun _ => Nat.zero_le 1, fun _ => Nat.zero_le 1⟩
  have collected : (inherited.foldl add {}).IsCompact :=
    List.foldlRecOn inherited add empty fun c compact m _ => compact.add m
  exact List.foldlRecOn own addOwn collected fun c compact d _ => compact.addOwn d

/-- No inherited accessor has the name of an own pointer. -/
def YieldsToOwn (c : Composite) : Prop :=
  ∀ d ∈ c.own, ∀ m ∈ c.inherited, m.isGetterOf d.name = false

theorem YieldsToOwn.addOwn {c : Composite} (yields : c.YieldsToOwn) (d : Descriptor) :
    (c.addOwn d).YieldsToOwn := by
  intro d' isOwn m kept
  obtain ⟨inherited, other⟩ := List.mem_filter.mp kept
  rcases List.mem_append.mp isOwn with earlier | last
  · exact yields d' earlier m inherited
  · rw [List.mem_singleton.mp last]
    simpa using other

theorem yieldsToOwn_ofMembers (inherited : List Member) (own : List Descriptor) :
    (ofMembers inherited own).YieldsToOwn := by
  -- Inherited accessors come in while there are no own pointers yet.
  have collected : (inherited.foldl add {}).YieldsToOwn := by
    intro d isOwn
    rw [own_foldl_add] at isOwn
    cases isOwn
  exact List.foldlRecOn own addOwn collected fun c yields d _ => yields.addOwn d

theorem own_ofMembers (inherited : List Member) (own : List Descriptor) : (ofMembers inherited own).own = own := by
  have appended (c : Composite) : (own.foldl addOwn c).own = c.own ++ own := by
    induction own generalizing c with
    | nil => simp
    | cons d own ih =>
      rw [List.foldl_cons, ih]
      exact List.append_assoc ..
  rw [ofMembers, appended, own_foldl_add]
  rfl

/-- A composite denotes the object that all its members denote in the order in which they come in, own
pointers last: what it drops on the way is overridden by what comes later. At no step is there a second
spread of a symbol or a second inherited accessor of a name. -/
theorem ofMembers_compacts (env : String → String → Option Descriptor) (inherited : List Member)
    (own : List Descriptor) :
    evaluate env (ofMembers inherited own).members = evaluate env (inherited ++ own.map .getter) ∧
      (∀ steps, (ofMembers (inherited.take steps) []).IsCompact ∧
        (ofMembers inherited (own.take steps)).IsCompact) ∧
        (ofMembers inherited own).own = own ∧ (ofMembers inherited own).YieldsToOwn := by
  refine ⟨?_, fun steps => ⟨isCompact_ofMembers _ _, isCompact_ofMembers _ _⟩, own_ofMembers inherited own,
    yieldsToOwn_ofMembers inherited own⟩
  funext name
  rw [evaluate_eq_fieldsOf, evaluate_eq_fieldsOf]
  exact fieldsOf_ofMembers (Member.respectsNames_given env) inherited own name

/-- A spread that comes again stands where it comes last. -/
example : (ofMembers [.spread "default_Named", .spread "default_Dated", .spread "default_Named"] []).inherited =
    [.spread "default_Dated", .spread "default_Named"] :=
  rfl

end Composite
end QueryShapes
