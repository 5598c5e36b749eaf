namespace QueryShapes

/-- A line of generated text. A blank line is not indented, at whatever depth
it stands. -/
inductive Line
  | blank
  | text (depth : Nat) (content : String)
deriving DecidableEq, Repr

namespace Line

/-- A line at the depth of its block. -/
def of (content : String) : Line :=
  text 0 content

def indentUnit : String := "  "

def nest : Line → Line
  | blank => blank
  | text depth content => text (depth + 1) content

def render : Line → String
  | blank => ""
  | text depth content => String.join (List.replicate depth indentUnit) ++ content

end Line

/-- The lines one level deeper. -/
def nested (lines : List Line) : List Line :=
  lines.map Line.nest

@[simp]
theorem text_succ_mem_nested_iff {depth : Nat} {content : String} {lines : List Line} :
    .text (depth + 1) content ∈ nested lines ↔ .text depth content ∈ lines := by
  rw [nested, List.mem_map]
  constructor
  · rintro ⟨line, member, deeper⟩
    cases line <;> cases deeper
    exact member
  · exact fun member => ⟨_, member, rfl⟩

@[simp]
theorem text_zero_not_mem_nested (content : String) (lines : List Line) : .text 0 content ∉ nested lines := by
  rw [nested, List.mem_map]
  rintro ⟨line, _, deeper⟩
  cases line <;> cases deeper

/-- What a line at the given depth holds. -/
def Line.contentAt? (depth : Nat) : Line → Option String
  | blank => none
  | text here content => if here = depth then some content else none

/-- What the lines at a depth hold. -/
def contentsAt (depth : Nat) (lines : List Line) : List String :=
  lines.filterMap (Line.contentAt? depth)

section Contents

variable {depth : Nat} (content : String) (lines : List Line)

@[simp]
theorem contentsAt_nil : contentsAt depth [] = [] :=
  rfl

@[simp]
theorem contentsAt_of_cons : contentsAt 0 (.of content :: lines) = content :: contentsAt 0 lines :=
  rfl

@[simp]
theorem contentsAt_succ_of_cons : contentsAt (depth + 1) (.of content :: lines) = contentsAt (depth + 1) lines :=
  rfl

@[simp]
theorem contentsAt_blank_cons : contentsAt depth (.blank :: lines) = contentsAt depth lines :=
  rfl

@[simp]
theorem contentsAt_append (lines' : List Line) :
    contentsAt depth (lines ++ lines') = contentsAt depth lines ++ contentsAt depth lines' :=
  List.filterMap_append

@[simp]
theorem contentsAt_nested : contentsAt (depth + 1) (nested lines) = contentsAt depth lines := by
  have deeper : Line.contentAt? (depth + 1) ∘ Line.nest = Line.contentAt? depth := by
    funext line
    cases line with
    | blank => rfl
    | text here content => simp only [Function.comp_apply, Line.nest, Line.contentAt?, Nat.add_right_cancel_iff]
  rw [contentsAt, nested, List.filterMap_map, deeper]
  rfl

@[simp]
theorem contentsAt_zero_nested : contentsAt 0 (nested lines) = [] := by
  rw [contentsAt, nested, List.filterMap_map, List.filterMap_eq_nil_iff]
  rintro (_ | ⟨here, content⟩) _ <;> rfl

end Contents

/-- Every rendering ends in a line break, that of no lines too. -/
def renderLines (lines : List Line) : String :=
  String.intercalate "\n" (lines.map Line.render) ++ "\n"

end QueryShapes
