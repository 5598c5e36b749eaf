import Mathlib.Data.List.Forall2

namespace QueryShapes

variable {ε ε' α β : Type}

theorem map_eq_ok_iff {x : Except ε α} {f : α → β} {b : β} : x.map f = .ok b ↔ ∃ a, x = .ok a ∧ f a = b := by
  cases x with
  | error e => simp [Except.map]
  | ok a => simp [Except.map]

theorem map_id_eq (x : Except ε α) : x.map (fun a => a) = x := by
  cases x <;> rfl

theorem map_map {γ : Type} (x : Except ε α) (f : α → β) (f' : β → γ) :
    (x.map f).map f' = x.map fun a => f' (f a) := by
  cases x <;> rfl

theorem mapError_eq_ok_iff {x : Except ε α} {f : ε → ε'} {a : α} : x.mapError f = .ok a ↔ x = .ok a := by
  cases x with
  | error e => simp [Except.mapError]
  | ok a => simp [Except.mapError]

theorem bind_eq_ok_iff {x : Except ε α} {f : α → Except ε β} {b : β} :
    x >>= f = .ok b ↔ ∃ a, x = .ok a ∧ f a = .ok b := by
  cases x with
  | error e => simp [bind, Except.bind]
  | ok a => simp [bind, Except.bind]

theorem map_eq_error_iff {x : Except ε α} {f : α → β} {e : ε} : x.map f = .error e ↔ x = .error e := by
  cases x <;> simp [Except.map]

theorem mapError_eq_error_iff {x : Except ε α} {f : ε → ε'} {e : ε'} :
    x.mapError f = .error e ↔ ∃ e', x = .error e' ∧ f e' = e := by
  cases x <;> simp [Except.mapError]

theorem bind_eq_error_iff {x : Except ε α} {f : α → Except ε β} {e : ε} :
    x >>= f = .error e ↔ x = .error e ∨ ∃ a, x = .ok a ∧ f a = .error e := by
  cases x <;> simp [bind, Except.bind]

/-- Only what follows from a result can differ. -/
theorem bind_congr_of_ok {x : Except ε α} {f f' : α → Except ε β} (same : ∀ a, x = .ok a → f a = f' a) :
    x >>= f = x >>= f' := by
  cases x with
  | error e => rfl
  | ok a => exact same a rfl

/-- A list is mapped when each of its elements is, one by one. -/
theorem mapM_eq_ok_iff {f : α → Except ε β} {list : List α} {mapped : List β} :
    list.mapM f = .ok mapped ↔ List.Forall₂ (fun a b => f a = .ok b) list mapped := by
  induction list generalizing mapped with
  | nil => cases mapped <;> simp [pure, Except.pure]
  | cons a list ih =>
    rw [List.mapM_cons, bind_eq_ok_iff]
    simp only [bind_eq_ok_iff, ih]
    constructor
    · rintro ⟨b, here, rest, later, same⟩
      cases same
      exact .cons here later
    · rintro (_ | ⟨here, later⟩)
      exact ⟨_, here, _, later, rfl⟩

theorem mapM_eq_ok_of_forall {f : α → Except ε β} {g : α → β} {list : List α} (each : ∀ a ∈ list, f a = .ok (g a)) :
    list.mapM f = .ok (list.map g) :=
  mapM_eq_ok_iff.mpr (List.forall₂_map_right_iff.mpr (List.forall₂_same.mpr each))

theorem exists_mapM_eq_ok_iff {f : α → Except ε β} {list : List α} :
    (∃ mapped, list.mapM f = .ok mapped) ↔ ∀ a ∈ list, ∃ b, f a = .ok b := by
  induction list with
  | nil => simp [pure, Except.pure]
  | cons a list ih =>
    rw [List.forall_mem_cons, ← ih, List.mapM_cons]
    simp only [bind_eq_ok_iff, pure, Except.pure, Except.ok.injEq]
    constructor
    · rintro ⟨_, b, here, rest, later, _⟩
      exact ⟨⟨b, here⟩, rest, later⟩
    · rintro ⟨⟨b, here⟩, rest, later⟩
      exact ⟨_, b, here, rest, later, rfl⟩

/-- A list is not mapped because of the first of its elements that is not. -/
theorem mapM_eq_error_iff {f : α → Except ε β} {list : List α} {e : ε} :
    list.mapM f = .error e ↔
      ∃ before a after, list = before ++ a :: after ∧ (∀ b ∈ before, ∃ c, f b = .ok c) ∧ f a = .error e := by
  induction list with
  | nil => simp [pure, Except.pure]
  | cons a list ih =>
    rw [List.mapM_cons, bind_eq_error_iff]
    constructor
    · rintro (here | ⟨c, here, failed⟩)
      · exact ⟨[], a, list, rfl, List.forall_mem_nil _, here⟩
      · rcases bind_eq_error_iff.mp failed with later | ⟨_, _, impossible⟩
        · obtain ⟨before, b, after, rfl, mapped, there⟩ := ih.mp later
          exact ⟨a :: before, b, after, rfl, List.forall_mem_cons.mpr ⟨⟨c, here⟩, mapped⟩, there⟩
        · cases impossible
    · rintro ⟨before, b, after, parts, mapped, failed⟩
      cases before with
      | nil =>
        cases parts
        exact Or.inl failed
      | cons a' before =>
        cases parts
        obtain ⟨⟨c, here⟩, mapped⟩ := List.forall_mem_cons.mp mapped
        have later := ih.mpr ⟨before, b, after, rfl, mapped, failed⟩
        exact Or.inr ⟨c, here, bind_eq_error_iff.mpr (Or.inl later)⟩

theorem exists_of_mapM_eq_error {f : α → Except ε β} {list : List α} {e : ε} (failed : list.mapM f = .error e) :
    ∃ a ∈ list, f a = .error e := by
  obtain ⟨before, a, after, rfl, _, here⟩ := mapM_eq_error_iff.mp failed
  exact ⟨a, List.mem_append_right before (List.mem_cons_self ..), here⟩

/-- A list is mapped to whatever its elements are mapped to one by one, also under a function of the outcome. -/
theorem exists_mapM_of_forall₂ {γ : Type} {f : α → Except ε β} {g : β → γ} {R : α → γ → Prop} {list : List α}
    {results : List γ} (related : List.Forall₂ R list results)
    (each : ∀ a ∈ list, ∀ c, R a c → ∃ b, f a = .ok b ∧ g b = c) :
    ∃ mapped, list.mapM f = .ok mapped ∧ mapped.map g = results := by
  induction related with
  | nil => exact ⟨[], rfl, rfl⟩
  | cons here _ ih =>
    obtain ⟨first, others⟩ := List.forall_mem_cons.mp each
    obtain ⟨b, got, rfl⟩ := first _ here
    obtain ⟨mapped, later, rfl⟩ := ih others
    exact ⟨b :: mapped, mapM_eq_ok_iff.mpr (.cons got (mapM_eq_ok_iff.mp later)), rfl⟩

theorem mapM_singleton (f : α → Except ε β) (a : α) : [a].mapM f = (f a).map fun b => [b] := by
  rw [List.mapM_cons]
  cases f a <;> rfl

theorem mapM_congr {f f' : α → Except ε β} {list : List α} (same : ∀ a ∈ list, f a = f' a) :
    list.mapM f = list.mapM f' := by
  induction list with
  | nil => rfl
  | cons a list ih =>
    obtain ⟨here, later⟩ := List.forall_mem_cons.mp same
    rw [List.mapM_cons, List.mapM_cons, here, ih later]

/-- What a list is mapped to, read off each element apart from the others. -/
theorem filterMap_of_forall₂ {f : α → Except ε β} {list : List α} {mapped : List β}
    (each : List.Forall₂ (fun a b => f a = .ok b) list mapped) :
    (list.filterMap fun a => (f a).toOption) = mapped := by
  induction each with
  | nil => rfl
  | cons here _ ih => rw [List.filterMap_cons_some (by rw [here]; rfl), ih]

/-- In another order the same elements are mapped to the same, in another order. -/
theorem perm_of_mapM_eq_ok {f : α → Except ε β} {list list' : List α} {mapped mapped' : List β}
    (perm : list.Perm list') (each : list.mapM f = .ok mapped) (each' : list'.mapM f = .ok mapped') :
    mapped.Perm mapped' := by
  rw [← filterMap_of_forall₂ (mapM_eq_ok_iff.mp each), ← filterMap_of_forall₂ (mapM_eq_ok_iff.mp each')]
  exact perm.filterMap _

section Forall₂

variable {R : α → β → Prop}

theorem split_of_forall₂_append {before after : List α} {list : List β}
    (related : List.Forall₂ R (before ++ after) list) :
    ∃ before' after', list = before' ++ after' ∧ List.Forall₂ R before before' ∧ List.Forall₂ R after after' := by
  induction before generalizing list with
  | nil => exact ⟨[], list, rfl, .nil, related⟩
  | cons a before ih =>
    rw [List.cons_append] at related
    obtain _ | ⟨here, later⟩ := related
    obtain ⟨before', after', rfl, first, rest⟩ := ih later
    exact ⟨_ :: before', after', rfl, .cons here first, rest⟩

theorem exists_of_forall₂_right {list : List α} {list' : List β} (related : List.Forall₂ R list list') {b : β}
    (member : b ∈ list') : ∃ a ∈ list, R a b := by
  induction related with
  | nil => cases member
  | cons here _ ih =>
    rcases List.mem_cons.mp member with rfl | member
    · exact ⟨_, List.mem_cons_self .., here⟩
    · obtain ⟨a, inList, holds⟩ := ih member
      exact ⟨a, List.mem_cons_of_mem _ inList, holds⟩

theorem exists_of_forall₂_left {list : List α} {list' : List β} (related : List.Forall₂ R list list') {a : α}
    (member : a ∈ list) : ∃ b ∈ list', R a b := by
  obtain ⟨b, inList, holds⟩ := exists_of_forall₂_right related.flip member
  exact ⟨b, inList, holds⟩

theorem getElem?_of_forall₂ {list : List α} {list' : List β} (related : List.Forall₂ R list list') {i : Nat} {a : α}
    (here : list[i]? = some a) : ∃ b, list'[i]? = some b ∧ R a b := by
  induction related generalizing i with
  | nil => cases here
  | cons first _ ih =>
    cases i with
    | zero =>
      cases here
      exact ⟨_, rfl, first⟩
    | succ i => exact ih here

end Forall₂

end QueryShapes
