namespace QueryShapes

/-- A list and those of further elements that it does not hold yet. -/
def addNew {α : Type} [DecidableEq α] (old new : List α) : List α :=
  new.foldl (fun found a => if a ∈ found then found else found ++ [a]) old

theorem mem_addNew {α : Type} [DecidableEq α] {old new : List α} {a : α} :
    a ∈ addNew old new ↔ a ∈ old ∨ a ∈ new := by
  unfold addNew
  induction new generalizing old with
  | nil => simp
  | cons b new ih =>
    rw [List.foldl_cons, ih, List.mem_cons]
    by_cases there : b ∈ old
    · rw [if_pos there]
      constructor
      · exact Or.imp_right Or.inr
      · rintro (before | rfl | later)
        · exact Or.inl before
        · exact Or.inl there
        · exact Or.inr later
    · rw [if_neg there, List.mem_append, List.mem_singleton, or_assoc]

theorem addNew_append {α : Type} [DecidableEq α] (old new later : List α) :
    addNew old (new ++ later) = addNew (addNew old new) later :=
  List.foldl_append

theorem addNew_singleton {α : Type} [DecidableEq α] (old : List α) (a : α) :
    addNew old [a] = if a ∈ old then old else old ++ [a] :=
  rfl

theorem addNew_cons {α : Type} [DecidableEq α] (old : List α) (a : α) (new : List α) :
    addNew old (a :: new) = addNew (addNew old [a]) new :=
  rfl

/-- It makes no difference where repetitions are left out. -/
theorem addNew_addNew {α : Type} [DecidableEq α] (old middle new : List α) :
    addNew old (addNew middle new) = addNew (addNew old middle) new := by
  induction new generalizing middle with
  | nil => rfl
  | cons a new ih =>
    rw [addNew_cons, ih, addNew_cons (addNew old middle), addNew_singleton middle]
    by_cases there : a ∈ middle
    · rw [if_pos there, addNew_singleton, if_pos (mem_addNew.mpr (Or.inr there))]
    · rw [if_neg there, addNew_append]

theorem addNew_eq_append_eraseDups {α : Type} [DecidableEq α] (old new : List α) :
    addNew old new = old ++ (new.filter (· ∉ old)).eraseDups := by
  induction new generalizing old with
  | nil => simp [addNew]
  | cons a new ih =>
    rw [addNew_cons, addNew_singleton]
    by_cases there : a ∈ old
    · rw [if_pos there, ih, List.filter_cons_of_neg (by simpa using there)]
    · have others : (new.filter (· ∉ old ++ [a])) = (new.filter (· ∉ old)).filter (!· == a) := by
        rw [List.filter_filter]
        refine List.filter_congr fun b _ => ?_
        by_cases same : b = a <;> simp [same]
      rw [if_neg there, ih, List.filter_cons_of_pos (by simpa using there), List.eraseDups_cons, others,
        List.append_assoc, List.singleton_append]

/-- A set that is made of a list holds its elements where each of them comes first. -/
theorem addNew_nil {α : Type} [DecidableEq α] (new : List α) : addNew [] new = new.eraseDups := by
  rw [addNew_eq_append_eraseDups, List.nil_append, List.filter_eq_self.mpr (by simp)]

theorem addNew_of_subset {α : Type} [DecidableEq α] {old new : List α} (known : new ⊆ old) :
    addNew old new = old := by
  have none : new.filter (· ∉ old) = [] := List.filter_eq_nil_iff.mpr fun a member => by simpa using known member
  rw [addNew_eq_append_eraseDups, none, List.eraseDups_nil, List.append_nil]

theorem addNew_of_nodup {α : Type} [DecidableEq α] {old new : List α} (distinct : (old ++ new).Nodup) :
    addNew old new = old ++ new := by
  induction new generalizing old with
  | nil => simp [addNew]
  | cons a new ih =>
    have here : a ∉ old := fun there => (List.nodup_append.mp distinct).2.2 a there a (List.mem_cons_self ..) rfl
    rw [List.append_cons] at distinct
    rw [addNew_cons, addNew_singleton, if_neg here, ih distinct, ← List.append_cons]

theorem nodup_addNew {α : Type} [DecidableEq α] {old : List α} (distinct : old.Nodup) (new : List α) :
    (addNew old new).Nodup := by
  unfold addNew
  induction new generalizing old with
  | nil => exact distinct
  | cons b new ih =>
    rw [List.foldl_cons]
    by_cases there : b ∈ old
    · rw [if_pos there]
      exact ih distinct
    · rw [if_neg there]
      refine ih (List.nodup_append.mpr ⟨distinct, by simp, fun a member a' last same => ?_⟩)
      exact there (List.mem_singleton.mp last ▸ same ▸ member)

end QueryShapes
