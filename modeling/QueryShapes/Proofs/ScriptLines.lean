import QueryShapes.Text.Script

namespace QueryShapes

namespace Line

/-- A line some levels deeper. -/
def deepen (levels : Nat) : Line → Line
  | blank => blank
  | text depth content => text (levels + depth) content

theorem deepen_nest (levels : Nat) (line : Line) : line.nest.deepen levels = line.deepen (levels + 1) := by
  cases line with
  | blank => rfl
  | text depth content => exact congrArg (text · content) (by omega)

theorem map_deepen_nested (levels : Nat) (lines : List Line) :
    (nested lines).map (deepen levels) = lines.map (deepen (levels + 1)) := by
  rw [nested, List.map_map]
  exact List.map_congr_left fun line _ => deepen_nest levels line

end Line

/-- The buffer with further lines, indented like its next one. -/
def Buffer.extend (b : Buffer) (lines : List Line) : Buffer :=
  { b with lines := b.lines ++ lines.map (Line.deepen b.depth) }

namespace Script

/-- The lines of a script, each as deep as there are blocks around it, and the failure with which the
script ends. A failure ends the scripts around it up to the first block that catches it. -/
inductive Writes : Script → List Line → Option String → Prop
  | done : Writes done [] none
  | line {content next lines failure} : Writes next lines failure →
      Writes (line content next) (.of content :: lines) failure
  | blank {next lines failure} : Writes next lines failure → Writes (blank next) (.blank :: lines) failure
  | render {next lines failure} : Writes next lines failure → Writes (render next) lines failure
  | fail {message} : Writes (fail message) [] (some message)
  | goesOn {caught body next inner outcome lines failure} : Writes body inner outcome →
      outcome = none ∨ caught = true → Writes next lines failure →
      Writes (block caught body next) (nested inner ++ lines) failure
  | breaksOff {body next inner message} : Writes body inner (some message) →
      Writes (block false body next) (nested inner) (some message)

theorem extend_line_extend (b : Buffer) (content : String) (lines : List Line) :
    (b.line content).extend lines = b.extend (.of content :: lines) :=
  congrArg (Buffer.mk · b.depth) (List.append_cons ..).symm

theorem extend_blank_extend (b : Buffer) (lines : List Line) : b.blank.extend lines = b.extend (.blank :: lines) :=
  congrArg (Buffer.mk · b.depth) (List.append_cons ..).symm

/-- What a block leaves behind is its lines one level deeper. -/
theorem leave_extend_enter (b : Buffer) (lines : List Line) :
    (b.enter.extend lines).leave = b.extend (nested lines) :=
  congrArg (fun deeper => Buffer.mk (b.lines ++ deeper) b.depth) (Line.map_deepen_nested b.depth lines).symm

theorem extend_extend (b : Buffer) (first second : List Line) :
    (b.extend first).extend second = b.extend (first ++ second) := by
  simp [Buffer.extend]

theorem extend_nil (b : Buffer) : b.extend [] = b := by
  simp [Buffer.extend]

/-- A script adds its lines to a buffer and leaves the depth as it found it. -/
theorem Writes.run {p : Script} {lines : List Line} {failure : Option String} (writes : p.Writes lines failure)
    (b : Buffer) : (p.run b).buffer = b.extend lines ∧ (p.run b).failure = failure := by
  induction writes generalizing b with
  | done => exact ⟨(extend_nil b).symm, rfl⟩
  | fail => exact ⟨(extend_nil b).symm, rfl⟩
  | @line content next lines failure _ ih =>
    obtain ⟨buffer, ends⟩ := ih (b.line content)
    exact ⟨buffer.trans (extend_line_extend b content lines), ends⟩
  | @blank next lines failure _ ih =>
    obtain ⟨buffer, ends⟩ := ih b.blank
    exact ⟨buffer.trans (extend_blank_extend b lines), ends⟩
  | render _ ih => exact ih b
  | @goesOn caught body next inner outcome lines failure _ continues _ ihBody ihNext =>
    obtain ⟨buffer, ends⟩ := ihBody b.enter
    have left : (body.run b.enter).buffer.leave = b.extend (nested inner) := by
      rw [buffer, leave_extend_enter]
    have onward : ((body.run b.enter).failure.isNone || caught) = true := by
      rw [ends]
      rcases continues with rfl | rfl
      · rfl
      · exact Bool.or_true _
    -- The next script starts at the depth at which the block did, whether its body failed or not.
    obtain ⟨buffer', ends'⟩ := ihNext (b.extend (nested inner))
    rw [Script.run, if_pos onward, left]
    exact ⟨buffer'.trans (extend_extend b (nested inner) lines), ends'⟩
  | @breaksOff body next inner message _ ih =>
    obtain ⟨buffer, ends⟩ := ih b.enter
    have off : ¬((body.run b.enter).failure.isNone || false) = true := by simp [ends]
    rw [Script.run, if_neg off]
    exact ⟨(congrArg Buffer.leave buffer).trans (leave_extend_enter b inner), ends⟩

end Script

namespace Script

/-- A failure inside two blocks that only the outer one catches. -/
example :
    (run (.block true (.line "outer" (.block false (.line "inner" (.fail "boom")) (.line "never" .done)))
      (.blank (.line "after" .done))) ⟨[], 1⟩).buffer =
      ⟨[.text 2 "outer", .text 3 "inner", .blank, .text 1 "after"], 1⟩ := rfl

end Script
end QueryShapes
