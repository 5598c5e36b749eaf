import QueryShapes.Units.ObjectDefinition
import Mathlib.Logic.Function.Basic

namespace QueryShapes

/-- A member of an object literal: all fields of another const, or one accessor. -/
inductive LiteralMember
  | spread (symbol : String)
  | accessor (key : String) (body : List Line)
deriving DecidableEq, Repr

structure ConstDefinition where
  symbol : String
  members : List LiteralMember
deriving DecidableEq, Repr

/-- What stands between a lead and a trail. -/
def between (lead trail text : String) : Option String :=
  let rest := text.toList.drop lead.length
  if lead.toList.isPrefixOf text.toList && trail.toList.isSuffixOf rest then
    some (String.ofList (rest.take (rest.length - trail.length)))
  else none

/-- Consts as they are read line by line: those that are closed, then the open one
and the open accessor in it. -/
structure ConstReader where
  closed : List ConstDefinition := []
  current : Option ConstDefinition := none
  accessor : Option (String × List Line) := none
deriving DecidableEq, Repr

namespace ConstReader

def readOuter (r : ConstReader) (content : String) : ConstReader :=
  match r.current with
  | some c => if content = "\x7d as const;" then ⟨r.closed ++ [c], none, none⟩ else r
  | none =>
    match between "const " " = \x7b" content with
    | some symbol => { r with current := some ⟨symbol, []⟩ }
    | none => r

def addMember (r : ConstReader) (c : ConstDefinition) (m : LiteralMember) : ConstReader :=
  ⟨r.closed, some ⟨c.symbol, c.members ++ [m]⟩, none⟩

def readMember (r : ConstReader) (content : String) : ConstReader :=
  match r.current, r.accessor with
  | none, _ => r
  | some c, some (key, body) => if content = "\x7d," then r.addMember c (.accessor key body) else r
  | some c, none =>
    match between "..." "," content, between "get " "() \x7b" content with
    | some symbol, _ => r.addMember c (.spread symbol)
    | none, some key => { r with accessor := some (key, []) }
    | none, none => r

def readInner (r : ConstReader) (line : Line) : ConstReader :=
  match r.accessor with
  | some (key, body) => { r with accessor := some (key, body ++ [line]) }
  | none => r

/-- Consts stand one level deep, their members two, and what accessors hold deeper. -/
def read (r : ConstReader) : Line → ConstReader
  | .blank => r.readInner .blank
  | .text 0 _ => r
  | .text 1 content => r.readOuter content
  | .text 2 content => r.readMember content
  | .text (depth + 3) content => r.readInner (.text depth content)

end ConstReader

/-- The consts that the lines of a unit define. -/
def constsOf (lines : List Line) : List ConstDefinition :=
  (lines.foldl ConstReader.read {}).closed

/-- The fields of an object by their keys, each with what its accessor holds. -/
abbrev Fields := String → Option (List Line)

/-- A spread copies the fields of a const that is defined already. Later members
override earlier ones. -/
def LiteralMember.define (env : String → Option Fields) (fields : Fields) : LiteralMember → Option Fields
  | spread symbol => (env symbol).map fun copied key => (copied key).or (fields key)
  | accessor key body => some (Function.update fields key (some body))

def ConstDefinition.fields (env : String → Option Fields) (c : ConstDefinition) : Option Fields :=
  c.members.foldlM (LiteralMember.define env) fun _ => none

/-- The objects that consts denote, which are defined in turn and each only once. -/
def evaluateConsts (env : String → Option Fields) : List ConstDefinition → Option (String → Option Fields)
  | [] => some env
  | c :: rest =>
    match env c.symbol, c.fields env with
    | none, some fields => evaluateConsts (Function.update env c.symbol (some fields)) rest
    | _, _ => none

/-- What the accessor of a descriptor holds. -/
def Descriptor.bodyLines (lib : ClientLibrary) (d : Descriptor) : List Line :=
  [.of "return \x7b"] ++ nested (d.fieldLines lib) ++ [.of ("\x7d as " ++ d.typeText lib ++ ";")]

def Member.literal (lib : ClientLibrary) : Member → LiteralMember
  | spread symbol => .spread symbol
  | getter d => .accessor (memberKey d.name) (d.bodyLines lib)

/-- The members of a composite in the order in which they are emitted. -/
def Composite.members (c : Composite) : List Member :=
  c.inherited ++ c.own.map .getter

def ObjectDefinition.const (lib : ClientLibrary) (d : ObjectDefinition) : ConstDefinition :=
  ⟨d.symbol, d.composite.members.map (Member.literal lib)⟩

theorem between_append (lead text trail : String) : between lead trail (lead ++ text ++ trail) = some text := by
  have parts : (lead ++ text ++ trail).toList = lead.toList ++ (text.toList ++ trail.toList) := by
    simp [String.toList_append]
  have rest : (lead ++ text ++ trail).toList.drop lead.length = text.toList ++ trail.toList := by
    rw [parts, ← String.length_toList, List.drop_left]
  unfold between
  simp only [rest]
  rw [parts, if_pos]
  · simp [← String.length_toList, ← String.length_toList]
  · simp [List.isPrefixOf_iff_prefix, List.isSuffixOf_iff_suffix]

namespace ConstReader

theorem foldl_read_inner (closed : List ConstDefinition) (current : Option ConstDefinition) (key : String)
    (body lines : List Line) :
    (nested (nested (nested lines))).foldl read ⟨closed, current, some (key, body)⟩ =
      ⟨closed, current, some (key, body ++ lines)⟩ := by
  induction lines generalizing body with
  | nil => simp [nested]
  | cons line lines ih =>
    have step : read ⟨closed, current, some (key, body)⟩ line.nest.nest.nest =
        ⟨closed, current, some (key, body ++ [line])⟩ := by
      cases line <;> rfl
    simp only [nested, List.map_cons, List.foldl_cons, step]
    simpa [nested] using ih (body ++ [line])

theorem foldl_read_member (lib : ClientLibrary) (closed : List ConstDefinition) (c : ConstDefinition) (m : Member) :
    (nested (nested (Composite.memberLines lib m))).foldl read ⟨closed, some c, none⟩ =
      ⟨closed, some ⟨c.symbol, c.members ++ [m.literal lib]⟩, none⟩ := by
  cases m with
  | spread symbol =>
    have found : between "..." "," ("..." ++ symbol ++ ",") = some symbol := between_append ..
    simp [Composite.memberLines, nested, Line.of, Line.nest, read, readMember, found, addMember, Member.literal]
  | getter d =>
    have found : between "get " "() \x7b" ("get " ++ memberKey d.name ++ "() \x7b") = some (memberKey d.name) :=
      between_append ..
    have other : between "..." "," ("get " ++ memberKey d.name ++ "() \x7b") = none := by
      simp [between, String.toList_append]
    have parts : Composite.memberLines lib (.getter d) =
        [Line.of ("get " ++ memberKey d.name ++ "() \x7b")] ++ nested (d.bodyLines lib) ++ [Line.of "\x7d,"] := rfl
    have opened : read ⟨closed, some c, none⟩ (.text 2 ("get " ++ memberKey d.name ++ "() \x7b")) =
        ⟨closed, some c, some (memberKey d.name, [])⟩ := by
      simp [read, readMember, found, other]
    rw [parts]
    simp only [nested, List.map_append, List.foldl_append, List.map_cons, List.map_nil, List.foldl_cons,
      List.foldl_nil, Line.of, Line.nest, Nat.zero_add, Nat.reduceAdd, opened]
    rw [show List.map Line.nest (List.map Line.nest (List.map Line.nest (d.bodyLines lib))) =
      nested (nested (nested (d.bodyLines lib))) from rfl, foldl_read_inner]
    rfl

theorem foldl_read_members (lib : ClientLibrary) (closed : List ConstDefinition) (c : ConstDefinition)
    (members : List Member) :
    (nested (nested (members.flatMap (Composite.memberLines lib)))).foldl read ⟨closed, some c, none⟩ =
      ⟨closed, some ⟨c.symbol, c.members ++ members.map (Member.literal lib)⟩, none⟩ := by
  induction members generalizing c with
  | nil => simp [nested]
  | cons m members ih =>
    rw [List.flatMap_cons, nested, nested, List.map_append, List.map_append, List.foldl_append]
    have step := foldl_read_member lib closed c m
    have rest := ih ⟨c.symbol, c.members ++ [m.literal lib]⟩
    simp only [nested] at step rest
    rw [step, rest]
    simp

/-- The blank line between inherited and own members belongs to neither. -/
theorem foldl_read_composite (lib : ClientLibrary) (closed : List ConstDefinition) (symbol : String)
    (c : Composite) :
    (nested (c.lines lib symbol)).foldl read ⟨closed, none, none⟩ =
      ⟨closed ++ [⟨symbol, c.members.map (Member.literal lib)⟩], none, none⟩ := by
  have opened : read ⟨closed, none, none⟩ (.text 1 ("const " ++ symbol ++ " = \x7b")) =
      ⟨closed, some ⟨symbol, []⟩, none⟩ := by
    simp [read, readOuter, between_append]
  have gap (c : ConstDefinition) (without : Bool) :
      (nested (nested (if without then [] else [Line.blank]))).foldl read ⟨closed, some c, none⟩ =
        ⟨closed, some c, none⟩ := by
    cases without <;> rfl
  have own : c.own.flatMap (·.getterLines lib) = (c.own.map Member.getter).flatMap (Composite.memberLines lib) := by
    rw [List.flatMap_map]
    rfl
  have lines : nested (c.lines lib symbol) = [Line.text 1 ("const " ++ symbol ++ " = \x7b")] ++
      (nested (nested (c.inherited.flatMap (Composite.memberLines lib))) ++
        nested (nested (if c.inherited.isEmpty || c.own.isEmpty then [] else [Line.blank])) ++
        nested (nested ((c.own.map Member.getter).flatMap (Composite.memberLines lib)))) ++
      [Line.text 1 "\x7d as const;", .blank] := by
    simp [Composite.lines, own, nested, Line.of, Line.nest]
  simp only [lines, List.foldl_append, List.foldl_cons, List.foldl_nil, opened, foldl_read_members, gap]
  simp [read, readOuter, readInner, Composite.members]

theorem foldl_read_definitions (lib : ClientLibrary) (closed : List ConstDefinition)
    (definitions : List ObjectDefinition) :
    (nested (definitions.flatMap fun d => d.composite.lines lib d.symbol)).foldl read ⟨closed, none, none⟩ =
      ⟨closed ++ definitions.map (·.const lib), none, none⟩ := by
  induction definitions generalizing closed with
  | nil => simp [nested]
  | cons d definitions ih =>
    have first := foldl_read_composite lib closed d.symbol d.composite
    simp only [nested] at first ih ⊢
    rw [List.flatMap_cons, List.map_append, List.foldl_append, first, ih]
    simp [ObjectDefinition.const]

theorem foldl_read_symbols (closed : List ConstDefinition) (symbols : List String) :
    (nested (nested (symbols.map fun symbol => Line.of (symbol ++ ",")))).foldl read ⟨closed, none, none⟩ =
      ⟨closed, none, none⟩ := by
  induction symbols with
  | nil => rfl
  | cons symbol symbols ih => exact ih

end ConstReader

/-- The base unit defines one const for each object definition, member by member. -/
theorem constsOf_baseBody (lib : ClientLibrary) (definitions : List ObjectDefinition) :
    constsOf (baseBody lib definitions) = definitions.map (·.const lib) := by
  have consts := ConstReader.foldl_read_definitions lib [] definitions
  have symbols := ConstReader.foldl_read_symbols (definitions.map (·.const lib)) (definitions.map (·.symbol))
  have plain (content : String) (other : content.toList.head? ≠ some 'c') :
      ConstReader.read ⟨definitions.map (·.const lib), none, none⟩ (.text 1 content) =
        ⟨definitions.map (·.const lib), none, none⟩ := by
    have absent : between "const " " = \x7b" content = none := by
      unfold between
      rw [if_neg]
      cases parts : content.toList with
      | nil => simp
      | cons c rest =>
        have different : c ≠ 'c' := by simpa [parts] using other
        simp [different.symm]
    simp [ConstReader.read, ConstReader.readOuter, absent]
  have lines : baseBody lib definitions = [Line.text 0 "const base = (function() \x7b"] ++
      (nested (definitions.flatMap fun d => d.composite.lines lib d.symbol) ++ [Line.text 1 "return \x7b"] ++
        nested (nested ((definitions.map (·.symbol)).map fun symbol => Line.of (symbol ++ ","))) ++
        [Line.text 1 "\x7d;"]) ++
      [Line.text 0 "\x7d)();", .blank, .text 0 "export default base;"] := by
    simp [baseBody, nested, Line.of, Line.nest]
  simp only [constsOf, lines, List.foldl_append, List.foldl_cons, List.foldl_nil]
  rw [show ConstReader.read {} (.text 0 "const base = (function() \x7b") = ⟨[], none, none⟩ from rfl, consts,
    List.nil_append, plain _ (by decide), symbols, plain _ (by decide)]
  rfl

end QueryShapes
