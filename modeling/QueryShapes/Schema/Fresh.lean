namespace QueryShapes

variable {κ : Type} [DecidableEq κ]

/-- How many of the keys are not visited yet. Searches end because it decreases. -/
def fresh (keys visited : List κ) : Nat :=
  (keys.filter (· ∉ visited)).length

theorem fresh_cons (keys visited : List κ) (k : κ) :
    fresh keys (k :: visited) = ((keys.filter (· ∉ visited)).filter (· ≠ k)).length := by
  simp only [fresh, List.filter_filter, List.mem_cons, not_or, Bool.decide_and]

theorem fresh_cons_of_not_mem {keys : List κ} {k : κ} (other : k ∉ keys) (visited : List κ) :
    fresh keys (k :: visited) = fresh keys visited := by
  rw [fresh_cons, List.filter_eq_self.mpr]
  · rfl
  · intro a member
    have : a ≠ k := fun same => other (same ▸ (List.mem_filter.mp member).1)
    simpa using this

theorem fresh_cons_lt {keys visited : List κ} {k : κ} (member : k ∈ keys) (new : k ∉ visited) :
    fresh keys (k :: visited) < fresh keys visited := by
  rw [fresh_cons]
  exact List.length_filter_lt_length_iff_exists.mpr ⟨k, by simp [member, new], by simp⟩

theorem fresh_le_of_subset {visited visited' : List κ} (keys : List κ) (more : visited ⊆ visited') :
    fresh keys visited' ≤ fresh keys visited := by
  rw [fresh, fresh, ← List.countP_eq_length_filter, ← List.countP_eq_length_filter]
  refine List.countP_mono_left fun k _ new => ?_
  simp only [decide_eq_true_eq] at new ⊢
  exact fun old => new (more old)

end QueryShapes
