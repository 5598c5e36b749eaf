import QueryShapes.Proofs.BaseWalk

namespace QueryShapes
open Relation

/-- The pointer of a name that a type declares itself, the last one if there are several. -/
def TypeRecord.pointer? (r : TypeRecord) (f : String) : Option Pointer :=
  r.pointers.reverse.find? (·.name = f)

theorem TypeRecord.pointer?_isSome_iff {r : TypeRecord} {f : String} :
    (r.pointer? f).isSome ↔ ∃ p ∈ r.pointers, p.name = f := by
  simp [pointer?, List.find?_isSome]

theorem TypeRecord.mem_of_pointer? {r : TypeRecord} {f : String} {p : Pointer} (declared : r.pointer? f = some p) :
    p ∈ r.pointers :=
  List.mem_reverse.mp (List.mem_of_find?_eq_some declared)

namespace Graph

/-- A type or one of its transitive bases declares a pointer of the name. -/
def HasField (g : Graph) (f : String) (r : TypeRecord) : Prop :=
  ∃ owner, ReflTransGen g.IsBase r owner ∧ ∃ p ∈ owner.pointers, p.name = f

theorem HasField.of_reflTransGen {g : Graph} {f : String} {r base : TypeRecord}
    (path : ReflTransGen g.IsBase r base) (has : g.HasField f base) : g.HasField f r := by
  obtain ⟨owner, path', declared⟩ := has
  exact ⟨owner, path.trans path', declared⟩

theorem hasField_of_pointer? {g : Graph} {f : String} {r : TypeRecord} (own : (r.pointer? f).isSome) :
    g.HasField f r :=
  ⟨r, .refl, TypeRecord.pointer?_isSome_iff.mp own⟩

/-- A field that a type does not declare is declared by one of its transitive bases. -/
theorem HasField.inherited {g : Graph} {f : String} {r : TypeRecord} (has : g.HasField f r)
    (absent : r.pointer? f = none) :
    ∃ owner, TransGen g.IsBase r owner ∧ (owner.pointer? f).isSome := by
  obtain ⟨owner, path, declared⟩ := has
  have own : (owner.pointer? f).isSome := TypeRecord.pointer?_isSome_iff.mpr declared
  rcases reflTransGen_iff_eq_or_transGen.mp path with rfl | path
  · rw [absent] at own
    cases own
  · exact ⟨owner, path, own⟩

/-- The pointer that later bases shadowing earlier ones gives a type: its own one, or
else that of the last base which has the field at all. -/
inductive Provides (g : Graph) (f : String) : TypeRecord → TypeRecord → Pointer → Prop
  | own {r p} : r.pointer? f = some p → Provides g f r r p
  | inherited {r before id after base owner p} : r.pointer? f = none → r.bases = before ++ id :: after →
      g.get? id = some base → (∀ later ∈ after, ∀ b, g.get? later = some b → ¬g.HasField f b) →
      Provides g f base owner p → Provides g f r owner p

theorem Provides.declared {g : Graph} {f : String} {r owner : TypeRecord} {p : Pointer}
    (provides : g.Provides f r owner p) : ReflTransGen g.IsBase r owner ∧ owner.pointer? f = some p := by
  induction provides with
  | own here => exact ⟨.refl, here⟩
  | inherited _ parts found _ _ ih => exact ⟨.head ⟨_, by rw [parts]; simp, found⟩ ih.1, ih.2⟩

theorem Provides.hasField {g : Graph} {f : String} {r owner : TypeRecord} {p : Pointer}
    (provides : g.Provides f r owner p) : g.HasField f r := by
  obtain ⟨path, declared⟩ := provides.declared
  exact .of_reflTransGen path (hasField_of_pointer? (by rw [declared]; rfl))

end Graph

theorem exists_last {α : Type} {P : α → Prop} {list : List α} (some : ∃ a ∈ list, P a) :
    ∃ before a after, list = before ++ a :: after ∧ P a ∧ ∀ b ∈ after, ¬P b := by
  induction list with
  | nil => simp at some
  | cons a list ih =>
    by_cases later : ∃ b ∈ list, P b
    · obtain ⟨before, b, after, rfl, here, last⟩ := ih later
      exact ⟨a :: before, b, after, rfl, here, last⟩
    · obtain ⟨b, member, holds⟩ := some
      rcases List.mem_cons.mp member with rfl | member
      · exact ⟨[], b, list, rfl, holds, fun c inList holds => later ⟨c, inList, holds⟩⟩
      · exact absurd ⟨b, member, holds⟩ later

theorem last_unique {α : Type} {P : α → Prop} {before before' after after' : List α} {a a' : α}
    (same : before ++ a :: after = before' ++ a' :: after') (here : P a) (here' : P a')
    (last : ∀ b ∈ after, ¬P b) (last' : ∀ b ∈ after', ¬P b) : a = a' := by
  rcases List.append_eq_append_iff.mp same with ⟨between, rfl, split⟩ | ⟨between, rfl, split⟩
  · rcases List.cons_eq_append_iff.mp split with ⟨rfl, split⟩ | ⟨between, rfl, rfl⟩
    · exact (List.cons.inj split).1
    · exact absurd here' (last a' (by simp))
  · rcases List.cons_eq_append_iff.mp split with ⟨rfl, split⟩ | ⟨between, rfl, rfl⟩
    · exact (List.cons.inj split).1.symm
    · exact absurd here (last' a (by simp))

/-- Each field of a type is provided by one pointer at most. -/
theorem Graph.Provides.unique {g : Graph} {f : String} {r owner owner' : TypeRecord} {p p' : Pointer}
    (provides : g.Provides f r owner p) (provides' : g.Provides f r owner' p') : owner = owner' ∧ p = p' := by
  induction provides generalizing owner' p' with
  | own declared =>
    cases provides' with
    | own declared' => exact ⟨rfl, Option.some.inj (declared.symm.trans declared')⟩
    | inherited absent =>
      rw [declared] at absent
      cases absent
  | inherited absent parts found last provides ih =>
    cases provides' with
    | own declared =>
      rw [absent] at declared
      cases declared
    | inherited _ parts' found' last' provides' =>
      have has := provides.hasField
      have has' := provides'.hasField
      have same := last_unique (P := fun id => ∃ b, g.get? id = some b ∧ g.HasField f b) (parts.symm.trans parts')
        ⟨_, found, has⟩ ⟨_, found', has'⟩ (fun id member ⟨b, here, has⟩ => last id member b here has)
        (fun id member ⟨b, here, has⟩ => last' id member b here has)
      cases same
      cases found.symm.trans found'
      exact ih provides'

/-- Where bases never lead in a circle, every field of a type is provided. -/
theorem Graph.HasField.exists_provides {g : Graph} {f : String} {r : TypeRecord}
    (acc : Acc (TransGen fun b r => g.IsBase r b) r) (has : g.HasField f r) :
    ∃ owner p, g.Provides f r owner p := by
  induction acc with
  | intro r _ ih =>
    cases own : r.pointer? f with
    | some p => exact ⟨r, p, .own own⟩
    | none =>
      obtain ⟨owner, path, declared⟩ := has.inherited own
      obtain ⟨base, edge, path⟩ := TransGen.head'_iff.mp path
      obtain ⟨id, listed, found⟩ := edge
      have given : ∃ id ∈ r.bases, ∃ b, g.get? id = some b ∧ g.HasField f b :=
        ⟨id, listed, base, found, .of_reflTransGen path (Graph.hasField_of_pointer? declared)⟩
      obtain ⟨before, id, after, parts, ⟨b, found, has⟩, last⟩ := exists_last given
      obtain ⟨owner, p, provides⟩ := ih b (.single ⟨id, by rw [parts]; simp, found⟩) has
      exact ⟨owner, p, .inherited own parts found
        (fun later member b found has => last later member ⟨b, found, has⟩)
        provides⟩

namespace Scope

/-- A kept base gives all its fields, an elided one gives those that it declares itself. -/
def Gives (s : Scope) (f : String) : Inheritance → Prop
  | .kept base => s.graph.HasField f base
  | .elided base => (base.pointer? f).isSome

/-- The pointer that a type is emitted with: its own one, or else that of the last
inheritance which gives the field. -/
inductive Emits (s : Scope) (f : String) : TypeRecord → TypeRecord → Pointer → Prop
  | own {r p} : r.pointer? f = some p → Emits s f r r p
  | kept {r before base after owner p} : r.pointer? f = none →
      s.inheritances r = .ok (before ++ .kept base :: after) → (∀ i ∈ after, ¬s.Gives f i) →
      Emits s f base owner p → Emits s f r owner p
  | elided {r before base after p} : r.pointer? f = none →
      s.inheritances r = .ok (before ++ .elided base :: after) → (∀ i ∈ after, ¬s.Gives f i) →
      base.pointer? f = some p → Emits s f r base p

/-- A base that has the field and no shape is met a second time while the bases of a
type are collected. -/
def Repeats (s : Scope) (f : String) (r : TypeRecord) : Prop :=
  ∃ meetings seen base, s.Walks r.bases [] meetings seen ∧ .again base ∈ meetings ∧ s.graph.HasField f base

/-- The bases that a type inherits from are transitive bases of it, and kept ones are kept. -/
theorem transGen_of_inheritances {s : Scope} {r : TypeRecord} {found : List Inheritance}
    (collected : s.inheritances r = .ok found) :
    (∀ base, .kept base ∈ found → TransGen s.graph.IsBase r base ∧ s.keepsShape base = true) ∧
      ∀ base, .elided base ∈ found → TransGen s.graph.IsBase r base := by
  obtain ⟨meetings, seen, walk, rfl⟩ := walks_of_inheritances collected
  have below {m : Meeting} (met : m ∈ meetings) : TransGen s.graph.IsBase r m.base := by
    obtain ⟨id, listed, b, found, path⟩ := walk.reached met
    exact TransGen.head' ⟨id, listed, found⟩ path
  constructor
  · intro base member
    obtain ⟨m, met, same⟩ := List.mem_filterMap.mp member
    cases m <;> cases same
    exact ⟨below met, walk.keepsShape_of_kept met⟩
  · intro base member
    obtain ⟨m, met, same⟩ := List.mem_filterMap.mp member
    cases m <;> cases same
    exact below met

/-- No field that a base declares is lost on the way. -/
theorem exists_gives {s : Scope} {r : TypeRecord} {found : List Inheritance}
    (collected : s.inheritances r = .ok found) {f : String} (has : s.graph.HasField f r)
    (absent : r.pointer? f = none) : ∃ i ∈ found, s.Gives f i := by
  obtain ⟨meetings, seen, walk, rfl⟩ := walks_of_inheritances collected
  obtain ⟨owner, path, declared⟩ := has.inherited absent
  rcases walk.covers path with elided | ⟨k, kept, path⟩
  · exact ⟨.elided owner, List.mem_filterMap.mpr ⟨_, elided, rfl⟩, declared⟩
  · exact ⟨.kept k, List.mem_filterMap.mpr ⟨_, kept, rfl⟩,
      .of_reflTransGen path (Graph.hasField_of_pointer? declared)⟩

theorem Emits.hasField {s : Scope} {f : String} {r owner : TypeRecord} {p : Pointer} (emits : s.Emits f r owner p) :
    s.graph.HasField f r := by
  induction emits with
  | own declared => exact Graph.hasField_of_pointer? (Option.isSome_iff_exists.mpr ⟨_, declared⟩)
  | @kept _ _ base _ _ _ _ collected _ _ ih =>
    obtain ⟨path, _⟩ := (transGen_of_inheritances collected).1 base (by simp)
    exact .of_reflTransGen path.to_reflTransGen ih
  | @elided _ _ base _ _ _ collected _ declared =>
    have path := (transGen_of_inheritances collected).2 base (by simp)
    exact .of_reflTransGen path.to_reflTransGen
      (Graph.hasField_of_pointer? (Option.isSome_iff_exists.mpr ⟨_, declared⟩))

/-- A type is emitted with one pointer of each name. -/
theorem Emits.unique {s : Scope} {f : String} {r owner owner' : TypeRecord} {p p' : Pointer}
    (emits : s.Emits f r owner p) (emits' : s.Emits f r owner' p') : owner = owner' ∧ p = p' := by
  induction emits generalizing owner' p' with
  | own declared =>
    cases emits' with
    | own declared' => exact ⟨rfl, Option.some.inj (declared.symm.trans declared')⟩
    | kept absent | elided absent =>
      rw [declared] at absent
      cases absent
  | kept absent collected last emits ih =>
    cases emits' with
    | own declared =>
      rw [absent] at declared
      cases declared
    | kept _ collected' last' emits' =>
      have same := Except.ok.inj (collected.symm.trans collected')
      cases last_unique same emits.hasField emits'.hasField last last'
      exact ih emits'
    | elided _ collected' last' declared =>
      have same := Except.ok.inj (collected.symm.trans collected')
      have gives : s.Gives f (.elided owner') := Option.isSome_iff_exists.mpr ⟨_, declared⟩
      cases last_unique same emits.hasField gives last last'
  | @elided r before base after p absent collected last declared =>
    have gives : s.Gives f (.elided base) := Option.isSome_iff_exists.mpr ⟨_, declared⟩
    cases emits' with
    | own declared =>
      rw [absent] at declared
      cases declared
    | kept _ collected' last' emits' =>
      have same := Except.ok.inj (collected.symm.trans collected')
      cases last_unique same gives emits'.hasField last last'
    | elided _ collected' last' declared' =>
      have same := Except.ok.inj (collected.symm.trans collected')
      have gives' : s.Gives f (.elided owner') := Option.isSome_iff_exists.mpr ⟨_, declared'⟩
      cases last_unique same gives gives' last last'
      exact ⟨rfl, Option.some.inj (declared.symm.trans declared')⟩

/-- Every field of a kept type is emitted from somewhere. -/
theorem exists_emits {s : Scope} {r : TypeRecord} (acc : Acc (TransGen fun b r => s.graph.IsBase r b) r)
    (collects : ∀ k, ReflTransGen s.graph.IsBase r k → s.keepsShape k = true →
      ∃ found, s.inheritances k = .ok found)
    (kept : s.keepsShape r = true) {f : String} (has : s.graph.HasField f r) : ∃ owner p, s.Emits f r owner p := by
  induction acc with
  | intro r _ ih =>
    cases own : r.pointer? f with
    | some p => exact ⟨r, p, .own own⟩
    | none =>
      obtain ⟨found, collected⟩ := collects r .refl kept
      obtain ⟨before, i, after, rfl, gives, last⟩ := exists_last (exists_gives collected has own)
      cases i with
      | kept base =>
        obtain ⟨path, keeps⟩ := (transGen_of_inheritances collected).1 base (by simp)
        have below : ∀ k, ReflTransGen s.graph.IsBase base k → s.keepsShape k = true →
            ∃ found, s.inheritances k = .ok found :=
          fun k path' => collects k (path.to_reflTransGen.trans path')
        obtain ⟨owner, p, emits⟩ := ih base (transGen_swap.mpr path) below keeps gives
        exact ⟨owner, p, .kept own collected last emits⟩
      | elided base =>
        obtain ⟨p, declared⟩ := Option.isSome_iff_exists.mp gives
        exact ⟨base, p, .elided own collected last declared⟩

theorem hasField_of_gives {s : Scope} {f : String} {m : Meeting} {i : Inheritance}
    (same : m.inheritance? = some i) (gives : s.Gives f i) : s.graph.HasField f m.base := by
  cases m with
  | kept base =>
    cases same
    exact gives
  | elided base =>
    cases same
    exact Graph.hasField_of_pointer? gives
  | again base => cases same

/-- Bases that lack a field lead to nothing that gives it. -/
theorem Walks.gives_nothing {s : Scope} {ids seen seen' : List TypeId} {meetings : List Meeting}
    (walk : s.Walks ids seen meetings seen') {f : String}
    (lack : ∀ id ∈ ids, ∀ b, s.graph.get? id = some b → ¬s.graph.HasField f b) :
    ∀ i ∈ meetings.filterMap Meeting.inheritance?, ¬s.Gives f i := by
  intro i member gives
  obtain ⟨m, met, same⟩ := List.mem_filterMap.mp member
  obtain ⟨id, listed, b, found, path⟩ := walk.reached met
  exact lack id listed b found (.of_reflTransGen path (hasField_of_gives same gives))

/-- A pointer that is provided through one of the inheritances, while those after it do
not give the field. -/
def ProvidedLast (s : Scope) (f : String) (found : List Inheritance) (owner : TypeRecord) (p : Pointer) : Prop :=
  ∃ before i after, found = before ++ i :: after ∧ (∀ j ∈ after, ¬s.Gives f j) ∧
    ((∃ base, i = .kept base ∧ s.graph.Provides f base owner p) ∨ i = .elided owner ∧ owner.pointer? f = some p)

theorem ProvidedLast.behind {s : Scope} {f : String} {found : List Inheritance} {owner : TypeRecord} {p : Pointer}
    (last : s.ProvidedLast f found owner p) (before : List Inheritance) :
    s.ProvidedLast f (before ++ found) owner p := by
  obtain ⟨earlier, i, later, rfl, nothing, leads⟩ := last
  exact ⟨before ++ earlier, i, later, by simp, nothing, leads⟩

theorem ProvidedLast.followed {s : Scope} {f : String} {found after : List Inheritance} {owner : TypeRecord}
    {p : Pointer} (last : s.ProvidedLast f found owner p) (nothing : ∀ j ∈ after, ¬s.Gives f j) :
    s.ProvidedLast f (found ++ after) owner p := by
  obtain ⟨before, i, later, rfl, none, leads⟩ := last
  refine ⟨before, i, later ++ after, by simp, fun j member => ?_, leads⟩
  rcases List.mem_append.mp member with member | member
  · exact none j member
  · exact nothing j member

/-- Unless a base with the field is met again, the last listed base that has it also
comes last in the walk. -/
theorem Walks.providedLast {s : Scope} {ids seen seen' : List TypeId} {meetings : List Meeting}
    (walk : s.Walks ids seen meetings seen') {f : String}
    (once : ∀ b, .again b ∈ meetings → ¬s.graph.HasField f b) {before after : List TypeId} {id : TypeId}
    (parts : ids = before ++ id :: after) {base owner : TypeRecord} {p : Pointer}
    (found : s.graph.get? id = some base)
    (last : ∀ later ∈ after, ∀ b, s.graph.get? later = some b → ¬s.graph.HasField f b)
    (provides : s.graph.Provides f base owner p) :
    s.ProvidedLast f (meetings.filterMap Meeting.inheritance?) owner p := by
  induction walk generalizing before id after base owner p with
  | nil => simp at parts
  | @kept id' ids seen here rest seen' found' _ walk ih =>
    have once' : ∀ b, .again b ∈ rest → ¬s.graph.HasField f b := fun b met => once b (List.mem_cons_of_mem _ met)
    rcases List.cons_eq_append_iff.mp parts with ⟨rfl, same⟩ | ⟨before, rfl, rest'⟩
    · cases same
      cases found.symm.trans found'
      exact ⟨[], _, _, rfl, walk.gives_nothing last, Or.inl ⟨_, rfl, provides⟩⟩
    · exact (ih once' rest' found last provides).behind [.kept here]
  | @again id' ids seen here rest seen' found' _ _ walk ih =>
    have once' : ∀ b, .again b ∈ rest → ¬s.graph.HasField f b := fun b met => once b (List.mem_cons_of_mem _ met)
    rcases List.cons_eq_append_iff.mp parts with ⟨rfl, same⟩ | ⟨before, rfl, rest'⟩
    · cases same
      cases found.symm.trans found'
      exact absurd provides.hasField (once _ (List.mem_cons_self ..))
    · exact ih once' rest' found last provides
  | @elided id' ids seen here below between rest seen' found' _ _ walkBelow walk ihBelow ihRest =>
    have collected : (below ++ .elided here :: rest).filterMap Meeting.inheritance? =
        below.filterMap Meeting.inheritance? ++ .elided here :: rest.filterMap Meeting.inheritance? := by
      simp [Meeting.inheritance?]
    rw [collected]
    rcases List.cons_eq_append_iff.mp parts with ⟨rfl, same⟩ | ⟨before, rfl, rest'⟩
    · cases same
      cases found.symm.trans found'
      have nothing := walk.gives_nothing last
      cases provides with
      | own declared => exact ⟨_, _, _, rfl, nothing, Or.inr ⟨rfl, declared⟩⟩
      | inherited absent parts found last provides =>
        have once' : ∀ b, .again b ∈ below → ¬s.graph.HasField f b :=
          fun b met => once b (List.mem_append_left _ met)
        have own : ¬s.Gives f (.elided here) := by simp [Gives, absent]
        exact (ihBelow once' parts found last provides).followed (List.forall_mem_cons.mpr ⟨own, nothing⟩)
    · have once' : ∀ b, .again b ∈ rest → ¬s.graph.HasField f b :=
        fun b met => once b (List.mem_append_right _ (List.mem_cons_of_mem _ met))
      exact ((ihRest once' rest' found last provides).behind [.elided here]).behind _

/-- Where no base with the field is met again, the pointer that is provided is emitted. -/
theorem emits_of_provides {s : Scope} {r : TypeRecord} (acc : Acc (TransGen fun b r => s.graph.IsBase r b) r)
    (collects : ∀ k, ReflTransGen s.graph.IsBase r k → s.keepsShape k = true →
      ∃ found, s.inheritances k = .ok found)
    (kept : s.keepsShape r = true) {f : String} {owner : TypeRecord} {p : Pointer}
    (once : ∀ k, ReflTransGen s.graph.IsBase r k → s.keepsShape k = true → ¬s.Repeats f k)
    (provides : s.graph.Provides f r owner p) : s.Emits f r owner p := by
  induction acc with
  | intro r _ ih =>
    cases provides with
    | own declared => exact .own declared
    | inherited absent parts found last provides =>
      obtain ⟨collected, ended⟩ := collects r .refl kept
      obtain ⟨meetings, seen, walk, rfl⟩ := walks_of_inheritances ended
      have once' : ∀ b, .again b ∈ meetings → ¬s.graph.HasField f b :=
        fun b met has => once r .refl kept ⟨meetings, seen, b, walk, met, has⟩
      obtain ⟨before, i, after, split, nothing, leads⟩ := walk.providedLast once' parts found last provides
      rw [split] at ended
      rcases leads with ⟨k, rfl, provides⟩ | ⟨rfl, declared⟩
      · obtain ⟨path, keeps⟩ := (transGen_of_inheritances ended).1 k (by simp)
        have lift {j : TypeRecord} (path' : ReflTransGen s.graph.IsBase k j) : ReflTransGen s.graph.IsBase r j :=
          path.to_reflTransGen.trans path'
        exact .kept absent ended nothing
          (ih k (transGen_swap.mpr path) (fun j path' => collects j (lift path')) keeps
            (fun j path' => once j (lift path')) provides)
      · exact .elided absent ended nothing declared

end Scope
end QueryShapes
