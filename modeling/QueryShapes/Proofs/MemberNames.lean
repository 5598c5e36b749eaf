import QueryShapes.Proofs.Identifiers
import QueryShapes.Units.MemberName
import Mathlib.Data.List.Nodup
import Mathlib.Data.Nat.Init

namespace QueryShapes

/-- A search that goes through the spellings of an identifier, from that with a number on, ends at
a name that is not taken. -/
inductive Settles (taken : List String) (ident : String) : Nat → String → Prop
  | free {n} : suffixed ident n ∉ taken → Settles taken ident n (suffixed ident n)
  | occupied {n name} : suffixed ident n ∈ taken → Settles taken ident (n + 1) name → Settles taken ident n name

/-- The number of the first spelling that is not taken. -/
structure IsFirstFree (taken : List String) (ident : String) (n : Nat) : Prop where
  free : suffixed ident n ∉ taken
  occupied : ∀ m < n, suffixed ident m ∈ taken

section Spellings

variable {taken : List String} {ident : String}

theorem toString_nat_injective : Function.Injective (toString : Nat → String) := by
  intro m n same
  rw [Nat.toString_eq_ofList_toDigits, Nat.toString_eq_ofList_toDigits, String.ofList_inj] at same
  calc m = Nat.ofDigitChars 10 (Nat.toDigits 10 m) 0 := Nat.ofDigitChars_ten_toDigits.symm
    _ = Nat.ofDigitChars 10 (Nat.toDigits 10 n) 0 := by rw [same]
    _ = n := Nat.ofDigitChars_ten_toDigits

theorem suffixed_injective (ident : String) : Function.Injective (suffixed ident) := by
  have bare (n : Nat) : suffixed ident 0 ≠ suffixed ident (n + 1) := by
    intro same
    rw [suffixed, suffixed, String.append_assoc, eq_comm, String.append_eq_left_iff] at same
    simpa using congrArg String.toList same
  intro m n same
  cases m with
  | zero =>
    cases n with
    | zero => rfl
    | succ n => exact absurd same (bare n)
  | succ m =>
    cases n with
    | zero => exact absurd same.symm (bare m)
    | succ n =>
      rw [suffixed, suffixed, String.append_right_inj] at same
      have sameNumber := toString_nat_injective same
      omega

theorem isIdentifier_suffixed (identifier : IsIdentifier ident) (n : Nat) : IsIdentifier (suffixed ident n) := by
  cases n with
  | zero => exact identifier
  | succ n =>
    rw [suffixed, String.append_assoc]
    refine identifier.append fun c member => ?_
    rw [String.toList_append] at member
    rcases List.mem_append.mp member with underscore | digit
    · exact Or.inr (List.mem_singleton.mp underscore)
    · rw [Nat.toString_eq_ofList_toDigits, String.toList_ofList] at digit
      have isDigit : c.isDigit = true := Nat.isDigit_of_mem_toDigits (by omega) (Nat.le_refl 10) digit
      exact Or.inl (by rw [Char.isAlphanum, isDigit, Bool.or_true])

/-- There are more spellings among the first than names that are taken. -/
theorem exists_free (taken : List String) (ident : String) : ∃ n < taken.length + 1, suffixed ident n ∉ taken := by
  by_contra occupied
  push Not at occupied
  -- All of these spellings are different, so a list that holds them all is longer than the taken names.
  have distinct : ((List.range (taken.length + 1)).map (suffixed ident)).Nodup :=
    List.nodup_range.map (suffixed_injective ident)
  have within : (List.range (taken.length + 1)).map (suffixed ident) ⊆ taken := by
    intro name member
    obtain ⟨n, inRange, rfl⟩ := List.mem_map.mp member
    exact occupied n (List.mem_range.mp inRange)
  have atMost := distinct.length_le_of_subset within
  rw [List.length_map, List.length_range] at atMost
  omega

theorem exists_isFirstFree (taken : List String) (ident : String) :
    ∃ n, IsFirstFree taken ident n ∧ freeName taken ident = suffixed ident n := by
  obtain ⟨m, bound, free⟩ := exists_free taken ident
  have some : ((List.range (taken.length + 1)).find? fun n => suffixed ident n ∉ taken).isSome = true :=
    List.find?_isSome.mpr ⟨m, List.mem_range.mpr bound, by simpa using free⟩
  obtain ⟨n, found⟩ := Option.isSome_iff_exists.mp some
  obtain ⟨freeHere, _, before⟩ := List.find?_range_eq_some.mp found
  refine ⟨n, ⟨by simpa using freeHere, fun k earlier => by simpa using before k earlier⟩, ?_⟩
  rw [freeName, List.find?_map]
  exact congrArg (fun n? : Option Nat => (n?.map (suffixed ident)).getD ident) found

theorem freeName_not_mem (taken : List String) (ident : String) : freeName taken ident ∉ taken := by
  obtain ⟨n, first, same⟩ := exists_isFirstFree taken ident
  exact same ▸ first.free

theorem IsFirstFree.settles {n : Nat} (first : IsFirstFree taken ident n) {m : Nat} (start : m ≤ n) :
    Settles taken ident m (suffixed ident n) := by
  induction start using Nat.decreasingInduction with
  | self => exact .free first.free
  | of_succ m earlier ih => exact .occupied (first.occupied m earlier) ih

end Spellings

/-- A name is found among those that earlier values took, the last of them first. -/
theorem getElem?_memberNamesFrom (taken values : List String) (i : Nat) :
    (memberNamesFrom taken values)[i]? = values[i]?.map fun value =>
      freeName (((memberNamesFrom taken values).take i).reverse ++ taken) (identOf value) := by
  induction values generalizing taken i with
  | nil => rfl
  | cons value values ih =>
    cases i with
    | zero => rfl
    | succ i =>
      rw [memberNamesFrom, List.getElem?_cons_succ, List.getElem?_cons_succ, ih, List.take_succ_cons,
        List.reverse_cons, List.append_assoc, List.singleton_append]

theorem length_memberNamesFrom (taken values : List String) :
    (memberNamesFrom taken values).length = values.length := by
  induction values generalizing taken with
  | nil => rfl
  | cons value values ih => rw [memberNamesFrom, List.length_cons, List.length_cons, ih]

theorem memberNamesFrom_fresh (taken values : List String) :
    ∀ name ∈ memberNamesFrom taken values, name ∉ taken := by
  induction values generalizing taken with
  | nil => exact List.forall_mem_nil _
  | cons value values ih =>
    refine List.forall_mem_cons.mpr ⟨freeName_not_mem taken _, fun name later old => ?_⟩
    exact ih _ name later (List.mem_cons_of_mem _ old)

theorem nodup_memberNamesFrom (taken values : List String) : (memberNamesFrom taken values).Nodup := by
  induction values generalizing taken with
  | nil => exact List.nodup_nil
  | cons value values ih =>
    refine List.nodup_cons.mpr ⟨fun again => ?_, ih _⟩
    exact memberNamesFrom_fresh _ values _ again (List.mem_cons_self ..)

theorem memberNamesFrom_append (taken values more : List String) :
    memberNamesFrom taken (values ++ more) = memberNamesFrom taken values ++
      memberNamesFrom ((memberNamesFrom taken values).reverse ++ taken) more := by
  induction values generalizing taken with
  | nil => rfl
  | cons value values ih =>
    rw [List.cons_append, memberNamesFrom, memberNamesFrom, ih, List.reverse_cons, List.append_assoc,
      List.singleton_append, List.cons_append]

/-- Names for a list of values: as many, all different, and each an identifier. The search for a
name always ends. It gives the identifier of the value unless an earlier name is the same, and
then the identifier with the least number from 2 on that leads to no earlier name. -/
structure NamesValues (values names : List String) : Prop where
  length_eq : names.length = values.length
  nodup : names.Nodup
  identifier : ∀ name ∈ names, IsIdentifier name
  settles : ∀ (i : Nat) (value name : String), values[i]? = some value → names[i]? = some name →
    Settles (names.take i) (identOf value) 0 name
  spelled : ∀ (i : Nat) (value name : String), values[i]? = some value → names[i]? = some name →
    identOf value ∉ names.take i ∧ name = identOf value ∨
      identOf value ∈ names.take i ∧ ∃ k : Nat, 2 ≤ k ∧ name = identOf value ++ "_" ++ toString k ∧
        name ∉ names.take i ∧ ∀ j : Nat, 2 ≤ j → j < k → identOf value ++ "_" ++ toString j ∈ names.take i

theorem exists_isFirstFree_memberNames {values : List String} {i : Nat} {value name : String}
    (given : values[i]? = some value) (named : (memberNames values)[i]? = some name) :
    ∃ n, IsFirstFree ((memberNames values).take i) (identOf value) n ∧ name = suffixed (identOf value) n := by
  rw [memberNames, getElem?_memberNamesFrom, given, Option.map_some, Option.some_inj, List.append_nil] at named
  obtain ⟨n, ⟨free, occupied⟩, same⟩ := exists_isFirstFree ((memberNames values).take i).reverse (identOf value)
  refine ⟨n, ⟨fun taken => free (List.mem_reverse.mpr taken), fun m earlier => ?_⟩, named.symm.trans same⟩
  exact List.mem_reverse.mp (occupied m earlier)

theorem isIdentifier_of_mem_memberNames {values : List String} {name : String}
    (member : name ∈ memberNames values) :
    IsIdentifier name := by
  obtain ⟨i, named⟩ := List.mem_iff_getElem?.mp member
  have inside : i < values.length := by
    rw [← length_memberNamesFrom [] values]
    exact (List.getElem?_eq_some_iff.mp named).1
  obtain ⟨n, _, rfl⟩ := exists_isFirstFree_memberNames (List.getElem?_eq_getElem inside) named
  exact isIdentifier_suffixed (isIdentifier_identOf _) n

/-- Every list of values gets its names, and later values do not change them. -/
theorem memberNames_namesValues (values : List String) :
    NamesValues values (memberNames values) ∧ ∀ more, memberNames values <+: memberNames (values ++ more) := by
  refine ⟨⟨length_memberNamesFrom [] values, nodup_memberNamesFrom [] values,
    fun name => isIdentifier_of_mem_memberNames, fun i value name given named => ?_,
    fun i value name given named => ?_⟩, fun more => ?_⟩
  · obtain ⟨n, first, rfl⟩ := exists_isFirstFree_memberNames given named
    exact first.settles (Nat.zero_le n)
  · obtain ⟨n, ⟨free, occupied⟩, rfl⟩ := exists_isFirstFree_memberNames given named
    cases n with
    | zero => exact Or.inl ⟨free, rfl⟩
    | succ n =>
      refine Or.inr ⟨occupied 0 (Nat.succ_pos n), n + 2, by omega, rfl, free, fun j atLeast below => ?_⟩
      have number : suffixed (identOf value) (j - 1) = identOf value ++ "_" ++ toString j := by
        obtain ⟨m, rfl⟩ := Nat.exists_eq_add_of_le' atLeast
        rfl
      exact number ▸ occupied (j - 1) (by omega)
  · rw [memberNames, memberNames, memberNamesFrom_append]
    exact List.prefix_append ..

/-- A value that looks like a name with a number keeps it when it comes first. -/
example : memberNames ["dark blue", "dark_blue_2", "dark-blue", "", "9"] =
    ["dark_blue", "dark_blue_2", "dark_blue_3", "_", "_9"] := by cbv

end QueryShapes
