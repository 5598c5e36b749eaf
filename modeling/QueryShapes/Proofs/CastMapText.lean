import Mathlib
import QueryShapes.Cast.Table
import QueryShapes.Proofs.CastRows
import QueryShapes.Proofs.ConditionalType

namespace QueryShapes

/-- What a branch of the conditional type gives, as a type. -/
def CastDecision.branchType? (d : CastDecision) : Option ConditionalType :=
  match d.rule with
  | .sameType | .sourceToTarget => some (.parameter .right)
  | .targetToSource => some (.parameter .left)
  | .sharedTarget => some (.constant d.outcome)
  | .fallback => none

/-- The result for a pair of names that a decision is made for. -/
def CastDecision.result (d : CastDecision) (fallback : CastOutcome) (a b : String) : CastOutcome :=
  match d.branchType? with
  | some t => t.eval a b
  | none => fallback

theorem result_decideCast (fallback : CastOutcome) (a b : CastNode) (relation : CastRelation) :
    (decideCast fallback a b relation).result fallback a.name b.name =
      (decideCast fallback a b relation).outcome := by
  cases relation with
  | same => rfl
  | forward => rfl
  | backward => rfl
  | apart shared =>
    cases shared with
    | nil => rfl
    | cons chosen others =>
      rw [decideCast]
      split <;> rfl

namespace CastMatrix

/-- The branches on the second parameter. -/
def blockType (fallback : CastOutcome) : List (String × CastDecision) → ConditionalType
  | [] => .constant fallback
  | (inner, decision) :: row =>
    match decision.branchType? with
    | some result => .branch .right inner result (blockType fallback row)
    | none => blockType fallback row

def caseTypes (m : CastMatrix) : List String → ConditionalType
  | [] => .constant m.fallback
  | outer :: names => .branch .left outer (blockType m.fallback (m.row outer)) (caseTypes m names)

/-- The declarations that a matrix stands for. -/
def declarations (m : CastMatrix) (mapName : String) : List TypeDeclaration :=
  if m.hasKey then
    [.union (mapName ++ "Key") m.names, .map mapName (some (mapName ++ "Key")) (m.caseTypes m.names)]
  else [.map mapName none (m.caseTypes m.names)]

section Eval

variable {m : CastMatrix} {row : List (String × CastDecision)} {fallback : CastOutcome} {a b : String}

theorem eval_blockType_of_not_mem (absent : b ∉ row.map Prod.fst) :
    (blockType fallback row).eval a b = fallback := by
  induction row with
  | nil => rfl
  | cons entry row ih =>
    obtain ⟨inner, decision⟩ := entry
    rw [List.map_cons, List.mem_cons, not_or] at absent
    obtain ⟨other, absent⟩ := absent
    rw [blockType]
    split
    · rw [ConditionalType.eval, TypeParameter.value, if_neg other, ih absent]
    · exact ih absent

theorem eval_blockType (names : (row.map Prod.fst).Nodup) {decision : CastDecision}
    (listed : (b, decision) ∈ row) : (blockType fallback row).eval a b = decision.result fallback a b := by
  induction row with
  | nil => cases listed
  | cons entry row ih =>
    obtain ⟨inner, first⟩ := entry
    obtain ⟨fresh, names⟩ := List.nodup_cons.mp names
    rw [blockType]
    rcases List.mem_cons.mp listed with same | later
    · cases same
      rw [CastDecision.result]
      split
      · rw [ConditionalType.eval, TypeParameter.value, if_pos rfl]
      · exact eval_blockType_of_not_mem fresh
    · have other : b ≠ inner := by
        rintro rfl
        exact fresh (List.mem_map.mpr ⟨(b, decision), later, rfl⟩)
      split
      · rw [ConditionalType.eval, TypeParameter.value, if_neg other, ih names later]
      · exact ih names later

theorem eval_caseTypes {names : List String} :
    (m.caseTypes names).eval a b =
      if a ∈ names then (blockType m.fallback (m.row a)).eval a b else m.fallback := by
  induction names with
  | nil => rfl
  | cons outer names ih =>
    rw [caseTypes, ConditionalType.eval, TypeParameter.value, ih]
    by_cases same : a = outer
    · subst same
      simp
    · simp [same]

/-- The conditional type gives what the matrix decides, and the fallback where the matrix
decides nothing. -/
theorem eval_caseTypes_ofNodes {nodes : List CastNode} (names : (nodes.map CastNode.name).Nodup) (a b : String) :
    let m := ofNodes nodes fallback
    if a ∈ m.names ∧ b ∈ m.names then
      (m.resolve a b).map CastDecision.outcome = some ((m.caseTypes m.names).eval a b)
    else (m.caseTypes m.names).eval a b = fallback := by
  intro m
  rw [eval_caseTypes]
  by_cases left : a ∈ m.names
  · obtain ⟨left', leftListed, rfl⟩ := List.mem_map.mp left
    have row : m.row left'.name =
        nodes.map fun c => (c.name, decideCast fallback left' c (relateCasts nodes left' c)) :=
      row_ofNodes names leftListed
    have inner : (m.row left'.name).map Prod.fst = m.names := by
      rw [row, List.map_map]
      rfl
    rw [if_pos left]
    by_cases right : b ∈ m.names
    · obtain ⟨right', rightListed, rfl⟩ := List.mem_map.mp right
      have entry : (right'.name, decideCast fallback left' right' (relateCasts nodes left' right')) ∈
          m.row left'.name := by
        rw [row]
        exact List.mem_map_of_mem rightListed
      rw [if_pos ⟨left, right⟩, eval_blockType (inner ▸ names) entry, resolve_ofNodes names leftListed rightListed,
        Option.map_some]
      exact congrArg some (result_decideCast fallback left' right' _).symm
    · rw [if_neg (not_and_of_not_right _ right)]
      exact eval_blockType_of_not_mem (inner ▸ right)
  · rw [if_neg left, if_neg (not_and_of_not_left _ left)]
    rfl

end Eval

section Names

variable {m : CastMatrix} {row : List (String × CastDecision)} {fallback : CastOutcome} {name : String}

end Names

section Text

variable {m : CastMatrix} {mapName : String}

theorem sourceTokens_expr (outcome : CastOutcome) {rest : List Char} (ends : EndsWord rest) :
    sourceTokens (outcome.expr.toList ++ rest) =
      (ConditionalType.constant outcome).tokens ++ sourceTokens rest := by
  cases outcome with
  | type name => exact sourceTokens_quoted name rest
  | never =>
    have word : IsWord "never" := by decide
    exact sourceTokens_word word ends

theorem branch_cases (d : CastDecision) :
    d.branch? = none ∧ d.branchType? = none ∨
      ∃ text t, d.branch? = some text ∧ d.branchType? = some t ∧
        ∀ rest, EndsWord rest → sourceTokens (text.toList ++ rest) = t.tokens ++ sourceTokens rest := by
  have parameter (p : TypeParameter) (rest : List Char) (ends : EndsWord rest) :
      sourceTokens (p.word.toList ++ rest) = (ConditionalType.parameter p).tokens ++ sourceTokens rest := by
    have word : IsWord p.word := by cases p <;> decide
    exact sourceTokens_word word ends
  obtain ⟨rule, outcome⟩ := d
  cases rule with
  | sameType => exact Or.inr ⟨_, _, rfl, rfl, parameter .right⟩
  | sourceToTarget => exact Or.inr ⟨_, _, rfl, rfl, parameter .right⟩
  | targetToSource => exact Or.inr ⟨_, _, rfl, rfl, parameter .left⟩
  | sharedTarget => exact Or.inr ⟨_, _, rfl, rfl, fun _ ends => sourceTokens_expr outcome ends⟩
  | fallback => exact Or.inl ⟨rfl, rfl⟩

theorem spells_block (fallback : CastOutcome) (row : List (String × CastDecision)) :
    Spells ((row.filterMap fun (inner, decision) => decision.branch?.map fun result =>
        Line.of ("B extends " ++ quoted inner ++ " ? " ++ result ++ " :")) ++ [Line.of (fallback.expr ++ " :")])
      ((blockType fallback row).tokens ++ [SourceToken.mark ':']) := by
  induction row with
  | nil =>
    refine Spells.of fun rest => ?_
    simp [sourceTokens_expr, sourceTokens, isBlank, isIdentChar, blockType]
  | cons entry row ih =>
    obtain ⟨inner, d⟩ := entry
    rcases branch_cases d with ⟨absent, absentType⟩ | ⟨text, t, branch, branchType, read⟩
    · simpa [blockType, absent, absentType] using ih
    · have first : Spells [.of ("B extends " ++ quoted inner ++ " ? " ++ text ++ " :")]
          ([SourceToken.word "B", .word "extends", .literal inner, .mark '?'] ++ t.tokens ++
            [SourceToken.mark ':']) := by
        refine Spells.of fun rest => ?_
        simp [sourceTokens_quoted, read, sourceTokens, isBlank, isIdentChar]
      simpa [blockType, branch, branchType, ConditionalType.tokens, TypeParameter.word] using first.append ih

theorem spells_cases (m : CastMatrix) (names : List String) :
    Spells (names.flatMap m.caseLines ++ [Line.of (m.fallback.expr ++ ";")])
      ((m.caseTypes names).tokens ++ [SourceToken.mark ';']) := by
  induction names with
  | nil =>
    refine Spells.of fun rest => ?_
    simp [sourceTokens_expr, sourceTokens, isBlank, isIdentChar, caseTypes]
  | cons outer names ih =>
    have first : Spells [.of ("A extends " ++ quoted outer ++ " ?")]
        [.word "A", .word "extends", .literal outer, .mark '?'] := by
      refine Spells.of fun rest => ?_
      simp [sourceTokens_quoted, sourceTokens, isBlank, isIdentChar]
    have block := (spells_block m.fallback (m.row outer)).nested
    have all := first.append (block.append ih)
    simpa [caseTypes, caseLines, branchLines, ConditionalType.tokens, TypeParameter.word] using all

theorem spells_union (name : String) (names : List String) :
    Spells (unionLines (name :: names))
      (((name :: names).flatMap fun member => [SourceToken.mark '|', .literal member]) ++
        [SourceToken.mark ';']) := by
  induction names generalizing name with
  | nil =>
    refine Spells.of fun rest => ?_
    simp [sourceTokens_quoted, sourceTokens, isBlank, isIdentChar]
  | cons next names ih =>
    have first : Spells [.of ("| " ++ quoted name)] [.mark '|', .literal name] := by
      refine Spells.of fun rest => ?_
      simp [sourceTokens_quoted, sourceTokens, isBlank, isIdentChar]
    exact first.append (ih next)

theorem spells_unionHead {name : String} (word : IsWord name) :
    Spells [.of ("export type " ++ name ++ " =")] [.word "export", .word "type", .word name, .mark '='] := by
  refine Spells.of fun rest => ?_
  simp [sourceTokens_word word, sourceTokens, isBlank, isIdentChar]

theorem spells_head {name : String} (word : IsWord name) :
    Spells [.of ("export type " ++ name ++ "<A, B> =")]
      ([SourceToken.word "export", .word "type", .word name] ++ TypeDeclaration.headTokens none) := by
  refine Spells.of fun rest => ?_
  simp [sourceTokens_word word, sourceTokens, isBlank, isIdentChar, TypeDeclaration.headTokens]

theorem spells_keyHead {name key : String} (word : IsWord name) (keyWord : IsWord key) :
    Spells [.of ("export type " ++ name ++ "<A extends " ++ key ++ ", B extends " ++ key ++ "> =")]
      ([SourceToken.word "export", .word "type", .word name] ++ TypeDeclaration.headTokens (some key)) := by
  refine Spells.of fun rest => ?_
  simp [sourceTokens_word word, sourceTokens_word keyWord, sourceTokens, isBlank, isIdentChar,
    TypeDeclaration.headTokens]

theorem exists_cons_of_hasKey {m : CastMatrix} (keyed : m.hasKey = true) :
    ∃ first others, m.names = first :: others := by
  unfold hasKey isEmpty at keyed
  refine List.exists_cons_of_ne_nil fun empty => ?_
  simp [empty] at keyed

theorem spells_lines (m : CastMatrix) {mapName : String} (bare : identOf mapName = mapName) :
    Spells (m.lines mapName) ((m.declarations mapName).flatMap TypeDeclaration.tokens) := by
  have word := isWord_of_identOf bare
  have keyWord : IsWord (mapName ++ "Key") := word.append (by decide)
  have body := (spells_cases m m.names).nested
  cases keyed : m.hasKey with
  | false =>
    have all := (spells_head word).append body
    simpa [lines, headLines, declarations, keyed, TypeDeclaration.tokens] using all
  | true =>
    obtain ⟨first, others, listed⟩ := exists_cons_of_hasKey keyed
    have start := spells_unionHead keyWord
    have union := (spells_union first others).nested
    rw [← listed] at union
    have all := start.append (union.append (Spells.blank ((spells_keyHead word keyWord).append body)))
    simpa [lines, headLines, declarations, keyed, TypeDeclaration.tokens] using all

end Text

/-- The text of a matrix declares a type that gives the outcome for two listed names and
the fallback for others. If it is restricted to a union, that holds the names in order. -/
theorem lines_denote_outcomes {candidates : List Candidate} (casts : CastMap) (fallback : CastOutcome)
    (names : (candidates.map Candidate.name).Nodup) {mapName : String} (bare : identOf mapName = mapName) :
    let m := build candidates casts fallback
    let listed := candidates.map Candidate.name
    ∃ body, declaredTypes (renderLines (m.lines mapName)) =
        some (if m.hasKey then [.union (mapName ++ "Key") listed, .map mapName (some (mapName ++ "Key")) body]
          else [.map mapName none body]) ∧
      ∀ a b, if a ∈ listed ∧ b ∈ listed then
          (m.resolve a b).map CastDecision.outcome = some (body.eval a b)
        else body.eval a b = fallback := by
  intro m listed
  have sameNames : m.names = listed := by
    simp only [m, listed, build, ofNodes, List.map_map]
    rfl
  have distinct : (m.names).Nodup := sameNames ▸ names
  refine ⟨m.caseTypes m.names, ?_, ?_⟩
  · rw [declaredTypes_of_sourceTokens (spells_lines m bare).sourceTokens_renderLines, declarations, sameNames]
  · rw [← sameNames]
    exact eval_caseTypes_ofNodes distinct

end CastMatrix

namespace OddNames

/-- A name with a quote, a line break and the text of a branch. -/
def odd : Candidate := ⟨⟨"odd"⟩, "odd\" ?\n  B extends \"never\" ? A :"⟩

def never : Candidate := ⟨⟨"never"⟩, "never"⟩

def meet : Candidate := ⟨⟨"meet"⟩, "meet"⟩

def candidates : List Candidate :=
  [odd, never, meet]

def matrix : CastMatrix :=
  .build candidates ⟨[(odd.id, [meet.id]), (never.id, [meet.id])]⟩ (.type "Base")

/-- Two types that meet at a third, one of them with a name that looks like a branch. -/
theorem lines_meet :
    (candidates.map Candidate.name).Nodup ∧ identOf "Shared" = "Shared" ∧
      ∃ body, declaredTypes (renderLines (matrix.lines "Shared")) =
          some [.union "SharedKey" [odd.name, "never", "meet"], .map "Shared" (some "SharedKey") body] ∧
        body.eval odd.name never.name = .type meet.name ∧ body.eval odd.name "odd" = .type "Base" := by
  have names : (candidates.map Candidate.name).Nodup := by decide
  have bare : identOf "Shared" = "Shared" := by decide
  obtain ⟨body, declared, denotes⟩ :=
    CastMatrix.lines_denote_outcomes ⟨[(odd.id, [meet.id]), (never.id, [meet.id])]⟩ (.type "Base") names bare
  have meets : (matrix.resolve odd.name never.name).map CastDecision.outcome = some (.type meet.name) := by cbv
  have listed := denotes odd.name never.name
  have unlisted := denotes odd.name "odd"
  rw [if_pos (by decide)] at listed
  rw [if_neg (by decide)] at unlisted
  refine ⟨names, bare, body, declared, ?_, unlisted⟩
  exact Option.some.inj (listed.symm.trans meets)

end OddNames
end QueryShapes
