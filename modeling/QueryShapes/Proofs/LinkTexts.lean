import QueryShapes.Proofs.ResolvedTargets

namespace QueryShapes

/-- The members that are named between brackets, one list for each bracket that closes. The
first argument holds those that are named since the last bracket. -/
def groupsFrom (found : List (String × String)) : List SourceToken → List (List (String × String))
  | [] => []
  | .mark '[' :: rest => groupsFrom [] rest
  | .mark ']' :: rest => found :: groupsFrom [] rest
  | token :: rest => groupsFrom (found ++ (reference? token rest).toList) rest

/-- The groups that a list of lists names. Its own bracket closes last, and closes no group. -/
def listedGroups (text : String) : List (List (String × String)) :=
  (groupsFrom [] (sourceTokens text.toList)).dropLast

theorem groupsFrom_word (found : List (String × String)) (word : String) (tokens : List SourceToken) :
    groupsFrom found (.word word :: tokens) =
      groupsFrom (found ++ (reference? (.word word) tokens).toList) tokens := by
  rw [groupsFrom] <;> simp

theorem toList_intercalate_comma (first next : String) (items : List String) (rest : List Char) :
    (",".intercalate (first :: next :: items)).toList ++ rest =
      first.toList ++ ',' :: ((",".intercalate (next :: items)).toList ++ rest) := by
  simp [String.intercalate_cons_cons]

section Brackets

variable {found : List (String × String)} {rest : List Char}

theorem groupsFrom_opening : groupsFrom found (sourceTokens ('[' :: rest)) = groupsFrom [] (sourceTokens rest) := by
  simp [sourceTokens, isBlank, isIdentChar, groupsFrom]

theorem groupsFrom_closing :
    groupsFrom found (sourceTokens (']' :: rest)) = found :: groupsFrom [] (sourceTokens rest) := by
  simp [sourceTokens, isBlank, isIdentChar, groupsFrom]

theorem groupsFrom_comma :
    groupsFrom found (sourceTokens (',' :: rest)) = groupsFrom found (sourceTokens rest) := by
  simp [sourceTokens, isBlank, isIdentChar, groupsFrom, reference?]

theorem groupsFrom_member (found : List (String × String)) {owner member : String} (word : IsWord owner)
    (word' : IsWord member) (ends : EndsItem rest) :
    groupsFrom found (sourceTokens ((owner ++ "." ++ member).toList ++ rest)) =
      groupsFrom (found ++ [(owner, member)]) (sourceTokens rest) := by
  have last := ends.reference?_eq_none (.word member)
  have dot (tokens : List SourceToken) (found : List (String × String)) :
      groupsFrom found (.mark '.' :: tokens) = groupsFrom found tokens := by
    simp [groupsFrom, reference?]
  rw [sourceTokens_member word word' ends.endsWord, groupsFrom_word, reference?_member, dot, groupsFrom_word, last]
  simp

end Brackets

namespace Target

section Symbols

variable {lead : String} (plain : lead = "" ∨ lead = "typeof ")
include plain

theorem groupsFrom_symbol {symbol : String} (word : IsWord symbol) {rest : List Char} (ends : EndsItem rest)
    (found : List (String × String)) :
    groupsFrom found (sourceTokens ((lead ++ "base." ++ symbol).toList ++ rest)) =
      groupsFrom (found ++ [("base", symbol)]) (sourceTokens rest) := by
  have base : IsWord "base" := by decide
  have spelled : (lead ++ "base." ++ symbol).toList ++ rest =
      lead.toList ++ (("base" ++ "." ++ symbol).toList ++ rest) := by simp
  have named := groupsFrom_member found base word ends
  rw [spelled]
  rcases plain with rfl | rfl
  · exact named
  · rw [sourceTokens_typeof, groupsFrom_word, ← named, sourceTokens_member base word ends.endsWord]
    simp [reference?]

/-- The members of one group, after those that are found before them. -/
theorem groupsFrom_symbols {symbols : List String} (words : ∀ symbol ∈ symbols, IsWord symbol) (rest : List Char)
    (found : List (String × String)) :
    groupsFrom found (sourceTokens
        ((String.intercalate "," (symbols.map fun symbol => lead ++ "base." ++ symbol)).toList ++ ']' :: rest)) =
      (found ++ symbols.map ("base", ·)) :: groupsFrom [] (sourceTokens rest) := by
  induction symbols generalizing found with
  | nil => simp [groupsFrom_closing]
  | cons symbol symbols ih =>
    obtain ⟨first, others⟩ := List.forall_mem_cons.mp words
    cases symbols with
    | nil =>
      rw [List.map_singleton, String.intercalate_singleton,
        groupsFrom_symbol plain first (endsItem_cons (by decide) rest), groupsFrom_closing]
      rfl
    | cons next symbols =>
      have later := ih others (found ++ [("base", symbol)])
      rw [List.map_cons] at later
      rw [List.map_cons, List.map_cons, toList_intercalate_comma,
        groupsFrom_symbol plain first (endsItem_cons (by decide) _), groupsFrom_comma, later, List.append_assoc]
      rfl

theorem groupsFrom_group {symbols : List String} (words : ∀ symbol ∈ symbols, IsWord symbol) (rest : List Char) :
    groupsFrom [] (sourceTokens
        (("[" ++ String.intercalate "," (symbols.map fun symbol => lead ++ "base." ++ symbol) ++ "]").toList ++
          rest)) =
      symbols.map ("base", ·) :: groupsFrom [] (sourceTokens rest) := by
  have spelled (text : String) :
      ("[" ++ text ++ "]").toList ++ rest = '[' :: (text.toList ++ ']' :: rest) := by simp
  rw [spelled, groupsFrom_opening, groupsFrom_symbols plain words rest []]
  rfl

theorem groupsFrom_groups {groups : List (List String)}
    (words : ∀ symbols ∈ groups, ∀ symbol ∈ symbols, IsWord symbol) :
    groupsFrom [] (sourceTokens ((String.intercalate "," (groups.map fun symbols =>
        "[" ++ String.intercalate "," (symbols.map fun symbol => lead ++ "base." ++ symbol) ++ "]")).toList ++
          [']'])) =
      groups.map (List.map ("base", ·)) ++ [[]] := by
  have closed : groupsFrom [] (sourceTokens [']']) = [[]] := by
    rw [groupsFrom_closing, sourceTokens, groupsFrom]
  induction groups with
  | nil => simpa using closed
  | cons symbols groups ih =>
    obtain ⟨first, others⟩ := List.forall_mem_cons.mp words
    cases groups with
    | nil =>
      rw [List.map_singleton, String.intercalate_singleton, groupsFrom_group plain first, closed]
      rfl
    | cons next groups =>
      have later := ih others
      rw [List.map_cons] at later
      rw [List.map_cons, List.map_cons, toList_intercalate_comma, groupsFrom_group plain first,
        groupsFrom_comma, later]
      rfl

/-- The groups of a link are read back from its text. -/
theorem listedGroups_groupText {groups : List (List String)}
    (words : ∀ symbols ∈ groups, ∀ symbol ∈ symbols, IsWord symbol) :
    listedGroups (groupText lead groups) = groups.map (List.map ("base", ·)) := by
  have spelled (text : String) : ("[" ++ text ++ "]").toList = '[' :: (text.toList ++ [']']) := by simp
  rw [listedGroups, groupText, spelled, groupsFrom_opening, groupsFrom_groups plain words, List.dropLast_concat]

end Symbols

/-- The text of a link's type and that of its value list the same groups of members of the
base object. -/
def ListsGroups (t : Target) (groups : List (List String)) : Prop :=
  ∃ value, t.valueText? = some value ∧
    listedGroups t.typeText = groups.map (List.map ("base", ·)) ∧
      listedGroups value = groups.map (List.map ("base", ·))

theorem listsGroups_link {groups : List (List String)}
    (words : ∀ symbols ∈ groups, ∀ symbol ∈ symbols, IsWord symbol) :
    (link groups).ListsGroups groups :=
  ⟨_, rfl, listedGroups_groupText (Or.inr rfl) words, listedGroups_groupText (Or.inl rfl) words⟩

end Target

/-- A link is unknown in both of its texts, or they list the groups to which it leads. -/
theorem Scope.listsGroups_of_linkTarget {s : Scope} {referencing : String} {id : TypeId} {target : Target}
    (resolved : s.linkTarget referencing id = .ok target) :
    (target.typeText = "unknown" ∧ target.valueText? = some "null") ∨
      ∃ groups, target = .link groups ∧ target.ListsGroups groups := by
  rcases linkTarget_cases resolved with rfl | ⟨groups, rfl, kept⟩
  · exact Or.inl ⟨rfl, rfl⟩
  · refine Or.inr ⟨groups, rfl, Target.listsGroups_link fun symbols inGroups symbol inGroup => ?_⟩
    exact (kept symbol (List.mem_flatten.mpr ⟨symbols, inGroups, inGroup⟩)).isWord

end QueryShapes
