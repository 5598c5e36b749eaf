import Mathlib
import QueryShapes.Proofs.EmittedFields
import QueryShapes.Proofs.MemberKeys
import QueryShapes.Proofs.References
import QueryShapes.Proofs.Representations

namespace QueryShapes

/-- The name of the member that a line writes behind a lead and before a trail. -/
def memberWritten (lead trail content : String) : Option String :=
  if lead.toList.isPrefixOf content.toList then
    match readMemberKey (content.toList.drop lead.length) with
    | some (name, after) => if trail.toList.isPrefixOf after then some name else none
    | none => none
  else none

/-- The names of the accessors that stand at a depth. -/
def accessorNames (depth : Nat) (lines : List Line) : List String :=
  (contentsAt depth lines).filterMap (memberWritten "get " "() \x7b")

/-- The names of the fields at a depth that hold objects in turn. -/
def entryNames (depth : Nat) (lines : List Line) : List String :=
  (contentsAt depth lines).filterMap (memberWritten "" ": \x7b")

/-- The names of the fields that the text of a type declares in its outermost braces. The depth
counts the braces that are open before the text. -/
def fieldNames (depth : Nat) (text : List Char) : List String :=
  match text with
  | [] => []
  | c :: rest =>
    match _read : readMemberKey (c :: rest) with
    | some (name, after) => (if depth = 1 ∧ after.head? = some ':' then [name] else []) ++ fieldNames depth after
    | none => fieldNames (if c = '\x7b' then depth + 1 else if c = '\x7d' then depth - 1 else depth) rest
termination_by text.length
decreasing_by
  · exact readMemberKey_shorter _read
  · simp

theorem memberWritten_memberKey (lead trail name rest : String) (ends : EndsWord (trail ++ rest).toList) :
    memberWritten lead trail (lead ++ memberKey name ++ trail ++ rest) = some name := by
  have parts : (lead ++ memberKey name ++ trail ++ rest).toList =
      lead.toList ++ ((memberKey name).toList ++ (trail ++ rest).toList) := by
    simp only [String.toList_append, List.append_assoc]
  have trails : trail.toList.isPrefixOf (trail ++ rest).toList = true := by
    rw [String.toList_append]
    exact List.isPrefixOf_iff_prefix.mpr (List.prefix_append ..)
  rw [memberWritten, parts, if_pos (List.isPrefixOf_iff_prefix.mpr (List.prefix_append ..)), ← String.length_toList,
    List.drop_left, readMemberKey_memberKey name ends]
  exact if_pos trails

/-- The name of an accessor that a member brings in itself. -/
def Member.accessor? : Member → Option String
  | spread _ => none
  | getter d => some d.name

section Objects

variable (lib : ClientLibrary)

theorem entryNames_lines (p : PropertyDescriptor) : entryNames 0 (p.lines lib) = [p.name] := by
  have opened : memberWritten "" ": \x7b" (memberKey p.name ++ ": \x7b") = some p.name := by
    simpa using memberWritten_memberKey "" ": \x7b" p.name "" (by simp [isIdentChar])
  have closed (text : String) : memberWritten "" ": \x7b" ("\x7d as " ++ text ++ ",") = none := by
    simp [memberWritten, readMemberKey]
  simp [entryNames, PropertyDescriptor.lines, opened, closed]

theorem entryNames_flatMap_lines (properties : List PropertyDescriptor) :
    entryNames 0 (properties.flatMap (·.lines lib)) = properties.map PropertyDescriptor.name := by
  rw [entryNames, contentsAt, List.filterMap_flatMap, List.filterMap_flatMap, List.map_eq_flatMap]
  exact List.flatMap_congr fun p _ => entryNames_lines lib p

/-- The properties of a link are read back by their names, in order. -/
theorem entryNames_getterLines (d : Descriptor) :
    entryNames 3 (d.getterLines lib) = d.properties.map PropertyDescriptor.name := by
  have head : contentsAt 1 (headFields lib d.name d.kind d.cardinality) = [] := rfl
  have target :
      contentsAt 1 (d.target.valueText?.toList.map fun value => .of ("target: " ++ value ++ ",")) = [] := by
    cases d.target.valueText? <;> rfl
  have properties : contentsAt 1 (Descriptor.propertyLines lib d.properties) =
      contentsAt 0 (d.properties.flatMap (·.lines lib)) := by
    cases d.properties with
    | nil => rfl
    | cons p properties => simp [Descriptor.propertyLines]
  rw [← entryNames_flatMap_lines lib, entryNames, entryNames, ← properties]
  simp [Descriptor.getterLines, Descriptor.fieldLines, head, target]

theorem accessorNames_getterLines (d : Descriptor) : accessorNames 0 (d.getterLines lib) = [d.name] := by
  have opened : memberWritten "get " "() \x7b" ("get " ++ memberKey d.name ++ "() \x7b") = some d.name := by
    simpa using memberWritten_memberKey "get " "() \x7b" d.name "" (by simp [isIdentChar])
  have closed : memberWritten "get " "() \x7b" "\x7d," = none := by decide
  simp [accessorNames, Descriptor.getterLines, opened, closed]

theorem accessorNames_memberLines (m : Member) :
    accessorNames 0 (Composite.memberLines lib m) = m.accessor?.toList := by
  cases m with
  | spread symbol =>
    have other : memberWritten "get " "() \x7b" ("..." ++ symbol ++ ",") = none := by
      simp [memberWritten]
    simp [accessorNames, Composite.memberLines, other, Member.accessor?]
  | getter d => exact accessorNames_getterLines lib d

theorem accessorNames_flatMap_memberLines (members : List Member) :
    accessorNames 0 (members.flatMap (Composite.memberLines lib)) = members.filterMap Member.accessor? := by
  rw [accessorNames, contentsAt, List.filterMap_flatMap, List.filterMap_flatMap, List.filterMap_eq_flatMap_toList]
  exact List.flatMap_congr fun m _ => accessorNames_memberLines lib m

/-- The accessors of an object are read back by their names, in order. -/
theorem accessorNames_lines (symbol : String) (c : Composite) :
    accessorNames 1 (c.lines lib symbol) = c.members.filterMap Member.accessor? := by
  have own : c.own.flatMap (·.getterLines lib) = (c.own.map Member.getter).flatMap (Composite.memberLines lib) := by
    rw [List.flatMap_map]
    rfl
  have gap (without : Prop) [Decidable without] : contentsAt 0 (if without then [] else [Line.blank]) = [] := by
    split <;> rfl
  have members : contentsAt 1 (c.lines lib symbol) =
      contentsAt 0 (c.members.flatMap (Composite.memberLines lib)) := by
    simp [Composite.lines, Composite.members, own, gap]
  rw [accessorNames, members]
  exact accessorNames_flatMap_memberLines lib c.members

end Objects

/-- As an item at a depth, wherever it stands, the text declares these fields. -/
def DeclaresFields (depth : Nat) (text : String) (names : List String) : Prop :=
  ∀ rest, EndsItem rest → fieldNames depth (text.toList ++ rest) = names ++ fieldNames depth rest

section Fields

variable {depth : Nat} {name text : String} {names : List String} {rest : List Char}

theorem fieldNames_of_readMemberKey {text after : List Char} (read : readMemberKey text = some (name, after)) :
    fieldNames depth text =
      (if depth = 1 ∧ after.head? = some ':' then [name] else []) ++ fieldNames depth after := by
  cases text with
  | nil => cases read
  | cons c rest =>
    rw [fieldNames]
    split
    · rename_i found
      cases found.symm.trans read
      rfl
    · rename_i none
      cases none.symm.trans read

theorem fieldNames_identifier (identifier : IsIdentifier name) (ends : EndsWord rest)
    (other : rest.head? ≠ some ':') :
    fieldNames depth (name.toList ++ rest) = fieldNames depth rest := by
  rw [fieldNames_of_readMemberKey (readMemberKey_of_isIdentifier identifier ends),
    if_neg fun declared => other declared.2, List.nil_append]

/-- A mark names nothing, and only a brace changes the depth. -/
theorem fieldNames_brace {c : Char} (quote : c ≠ '"') (mark : isIdentChar c = false) :
    fieldNames depth (c :: rest) =
      fieldNames (if c = '\x7b' then depth + 1 else if c = '\x7d' then depth - 1 else depth) rest := by
  have none := readMemberKey_mark quote mark rest
  rw [fieldNames]
  split
  · rename_i found
    cases found.symm.trans none
  · rfl

theorem fieldNames_mark {c : Char} (plain : c ∉ ['"', '\x7b', '\x7d']) (mark : isIdentChar c = false) :
    fieldNames depth (c :: rest) = fieldNames depth rest := by
  simp only [List.mem_cons, List.not_mem_nil, or_false, not_or] at plain
  obtain ⟨quote, opening, closing⟩ := plain
  rw [fieldNames_brace quote mark, if_neg opening, if_neg closing]

namespace DeclaresFields

theorem fieldNames_eq (declares : DeclaresFields depth text names) : fieldNames depth text.toList = names := by
  simpa [fieldNames] using declares [] endsItem_nil

theorem of_isIdentifier (identifier : IsIdentifier text) : DeclaresFields depth text [] := by
  intro rest ends
  refine fieldNames_identifier identifier ends.endsWord fun colon => ?_
  exact absurd (ends ':' colon) (by decide)

theorem of_member {owner member : String} (identifier : IsIdentifier owner) (identifier' : IsIdentifier member) :
    DeclaresFields depth (owner ++ "." ++ member) [] := by
  intro rest ends
  have parts : (owner ++ "." ++ member).toList ++ rest = owner.toList ++ '.' :: (member.toList ++ rest) := by simp
  rw [parts, fieldNames_identifier identifier (endsWord_cons.mpr (by decide)) (by simp),
    fieldNames_mark (by decide) (by decide)]
  exact of_isIdentifier identifier' rest ends

theorem bracketed (declares : DeclaresFields depth text names) :
    DeclaresFields depth ("[" ++ text ++ "]") names := by
  intro rest _
  have parts : ("[" ++ text ++ "]").toList ++ rest = '[' :: (text.toList ++ ']' :: rest) := by simp
  rw [parts, fieldNames_mark (by decide) (by decide), declares _ (endsItem_cons (by decide) rest),
    fieldNames_mark (by decide) (by decide)]

theorem array (declares : DeclaresFields depth text names) :
    DeclaresFields depth ("Array<" ++ text ++ ">") names := by
  intro rest _
  have parts : ("Array<" ++ text ++ ">").toList ++ rest =
      "Array".toList ++ '<' :: (text.toList ++ '>' :: rest) := by simp
  rw [parts, fieldNames_identifier (by decide) (endsWord_cons.mpr (by decide)) (by simp),
    fieldNames_mark (by decide) (by decide), declares _ (endsItem_cons (by decide) rest),
    fieldNames_mark (by decide) (by decide)]

/-- Between braces stands what is declared one brace deeper. -/
theorem braced (declares : DeclaresFields (depth + 1) text names) :
    DeclaresFields depth ("\x7b" ++ text ++ "\x7d") names := by
  intro rest _
  have parts : ("\x7b" ++ text ++ "\x7d").toList ++ rest = '\x7b' :: (text.toList ++ '\x7d' :: rest) := by simp
  rw [parts, fieldNames_brace (by decide) (by decide), if_pos rfl, declares _ (endsItem_cons (by decide) rest),
    fieldNames_brace (by decide) (by decide), if_neg (by decide), if_pos rfl, Nat.add_sub_cancel]

theorem field (declares : DeclaresFields depth text names) (key : String) :
    DeclaresFields depth (memberKey key ++ ": " ++ text) ((if depth = 1 then [key] else []) ++ names) := by
  intro rest ends
  have parts : (memberKey key ++ ": " ++ text).toList ++ rest =
      (memberKey key).toList ++ ':' :: ' ' :: (text.toList ++ rest) := by simp
  have ends' : EndsWord (':' :: ' ' :: (text.toList ++ rest)) := endsWord_cons.mpr (by decide)
  rw [parts, fieldNames_of_readMemberKey (readMemberKey_memberKey key ends'),
    fieldNames_mark (by decide) (by decide),
    fieldNames_mark (by decide) (by decide), declares rest ends, List.append_assoc]
  simp

/-- Items with a comma between them declare what each of them declares. -/
theorem intercalate {α : Type} {text : α → String} {names : α → List String} {items : List α}
    (each : ∀ a ∈ items, DeclaresFields depth (text a) (names a)) :
    DeclaresFields depth (", ".intercalate (items.map text)) (items.flatMap names) := by
  refine read_intercalate _ (Or.inr rfl) (fun tail => ?_) each
  exact (fieldNames_mark (by decide) (by decide)).trans (fieldNames_mark (by decide) (by decide))

end DeclaresFields
end Fields

namespace TypeExpr

/-- The fields of a record are those of its outermost braces. -/
theorem declaresFields_record {fields : List (String × TypeExpr)}
    (each : ∀ field ∈ fields, ∀ depth, DeclaresFields (depth + 1) field.2.text []) (depth : Nat) :
    DeclaresFields depth (record fields).text (if depth = 0 then fields.map Prod.fst else []) := by
  have inner := DeclaresFields.intercalate fun field member => (each field member depth).field field.1
  rw [text, fieldTexts_eq_map]
  convert inner.braced using 1
  by_cases outermost : depth = 0
  · simp [outermost, List.map_eq_flatMap]
  · simp [outermost]

theorem declaresFields (e : TypeExpr) (depth : Nat) : DeclaresFields (depth + 1) e.text [] := by
  induction e generalizing depth with
  | primitive p => exact .of_isIdentifier (by cases p <;> decide)
  | enumeration name =>
    have suffix : IsWord "Types" := by decide
    have owner : IsIdentifier (name.moduleIdent ++ "Types") :=
      (isIdentifier_identOf _).append fun c member => isIdentChar_iff.mp (suffix.ident c member)
    rw [text_enumeration]
    exact .of_member owner (isIdentifier_identOf _)
  | array element ih => exact (ih depth).array
  | tuple elements ih =>
    have inner := DeclaresFields.intercalate fun e member => ih e member depth
    rw [List.flatMap_eq_nil_iff.mpr fun _ _ => rfl] at inner
    rw [text, texts_eq_map]
    exact inner.bracketed
  | record fields ih => exact declaresFields_record ih (depth + 1)

/-- The fields of a record are read back by their names, in order. -/
theorem fieldNames_record (fields : List (String × TypeExpr)) :
    fieldNames 0 (record fields).text.toList = fields.map Prod.fst :=
  (declaresFields_record (fun field _ => field.2.declaresFields) 0).fieldNames_eq

end TypeExpr

namespace Scope

variable {s : Scope}

theorem names_of_describe {owner : String} {p : Pointer} {d : Descriptor} (described : s.describe owner p = .ok d) :
    d.name = p.name ∧ d.properties.map PropertyDescriptor.name = p.linkProperties.map LinkProperty.name := by
  have name := name_of_describe described
  simp only [describe, bind_eq_ok_iff, pure, Except.pure, Except.ok.injEq] at described
  obtain ⟨target, _, properties, mapped, rfl⟩ := described
  have each : List.Forall₂ (fun declared property => PropertyDescriptor.name property = LinkProperty.name declared)
      p.linkProperties properties := by
    refine (mapM_eq_ok_iff.mp mapped).imp fun declared property found => ?_
    obtain ⟨type, _, rfl⟩ := map_eq_ok_iff.mp (mapError_eq_ok_iff.mp found)
    rfl
  have same := List.forall₂_map_left_iff.mpr (List.forall₂_map_right_iff.mpr each.flip)
  rw [List.forall₂_eq_eq_eq] at same
  exact ⟨name, same⟩

theorem record_of_typeExpr {referencing : String} {id : TypeId} {r : TypeRecord} {elements : List TupleElement}
    {e : TypeExpr} (found : s.graph.get? id = some r) (kind : r.kind = .tuple elements)
    (named : areNamed elements = true) (represented : s.typeExpr referencing id = .ok e) :
    ∃ types, types.length = elements.length ∧ e = .record ((elements.map TupleElement.name).zip types) := by
  rw [typeExpr, typeExprFrom_step found (List.not_mem_nil), represent,
    Graph.resolve_eq_ok_iff.mpr found] at represented
  simp only [kind] at represented
  cases mapped : elements.mapM fun e => s.typeExprFrom [r.id] r.name e.target with
  | error problem =>
    rw [mapped] at represented
    cases represented
  | ok types =>
    rw [mapped] at represented
    simp only [named, if_true, Except.ok.injEq] at represented
    exact ⟨types, (mapM_eq_ok_iff.mp mapped).length_eq.symm, represented.symm⟩

/-- The text of a tuple's type names its elements, in order. -/
theorem fieldNames_typeExpr {referencing : String} {id : TypeId} {r : TypeRecord} {elements : List TupleElement}
    {e : TypeExpr} (found : s.graph.get? id = some r) (kind : r.kind = .tuple elements)
    (named : areNamed elements = true) (represented : s.typeExpr referencing id = .ok e) :
    fieldNames 0 e.text.toList = elements.map TupleElement.name := by
  obtain ⟨types, length, rfl⟩ := record_of_typeExpr found kind named represented
  rw [TypeExpr.fieldNames_record, List.map_fst_zip (by simp [length])]

end Scope

/-- The key under which a name is written: the name itself just when that is an identifier, and a
literal of it otherwise. Whatever follows, a script reads the name from it. -/
structure IsKeyOf (name key : String) : Prop where
  bare_iff : key = name ↔ IsIdentifier name
  spelled : SpellsMember name key
  read : ∀ rest, EndsWord rest → readMemberKey (key.toList ++ rest) = some (name, rest)

theorem isKeyOf_memberKey (name : String) : IsKeyOf name (memberKey name) where
  bare_iff := memberKey_eq_self_iff
  spelled := spellsMember_iff.mpr rfl
  read := fun _ => readMemberKey_memberKey name

/-- Every text has an identifier, and the identifiers are the texts that have themselves. A name is
written as a member bare just when it is an identifier, and otherwise as a literal of it, so no two
names are written alike: the accessors of an object, the properties of a link and the elements of a
tuple are read back from what is written, each by its own name. -/
theorem memberKey_names_members :
    (∀ text, IsIdentifier (identOf text) ∧ identOf (identOf text) = identOf text ∧
        (identOf text = text ↔ IsIdentifier text)) ∧
      (Function.Injective memberKey ∧ ∀ name, IsKeyOf name (memberKey name)) ∧
        (∀ lib symbol, ∀ c : Composite,
          accessorNames 1 (c.lines lib symbol) = c.members.filterMap Member.accessor?) ∧
        (∀ lib owner p d, ∀ s : Scope, s.describe owner p = .ok d →
          accessorNames 0 (d.getterLines lib) = [p.name] ∧
            entryNames 3 (d.getterLines lib) = p.linkProperties.map LinkProperty.name) ∧
        ∀ referencing id r elements e, ∀ s : Scope, s.graph.get? id = some r → r.kind = .tuple elements →
          areNamed elements = true → s.typeExpr referencing id = .ok e →
            fieldNames 0 e.text.toList = elements.map TupleElement.name := by
  refine ⟨fun text => ⟨isIdentifier_identOf text, identOf_identOf text, identOf_eq_self_iff⟩,
    ⟨fun _ _ => memberKey_inj, isKeyOf_memberKey⟩, accessorNames_lines, fun lib owner p d s described => ?_,
    fun referencing id r elements e s found kind named => Scope.fieldNames_typeExpr found kind named⟩
  obtain ⟨name, properties⟩ := Scope.names_of_describe described
  rw [accessorNames_getterLines, entryNames_getterLines, name, properties]
  exact ⟨rfl, rfl⟩

namespace OddMembers

def str : TypeRecord :=
  ⟨⟨"str"⟩, "std::str", .scalar ⟨false, [], [], none⟩⟩

/-- A tuple inside another that has an element of the same name. -/
def place : TypeRecord :=
  ⟨⟨"place"⟩, "tuple<a: b:std::str>", .tuple [⟨"a: b", str.id⟩]⟩

def visit : TypeRecord :=
  ⟨⟨"visit"⟩, "tuple<a_b:std::str, a: b:tuple<a: b:std::str>, a-b:std::str>",
    .tuple [⟨"a_b", str.id⟩, ⟨"a: b", place.id⟩, ⟨"a-b", str.id⟩]⟩

def user : TypeRecord :=
  ⟨⟨"user"⟩, "default::User", .object ⟨false, [], [], [], []⟩⟩

def knows : Pointer :=
  ⟨"kno\"ws\n", .link, .many, user.id, none, [⟨"a b", visit.id⟩, ⟨"a_b", str.id⟩]⟩

def visitType : TypeExpr :=
  .record [("a_b", .primitive .string), ("a: b", .record [("a: b", .primitive .string)]),
    ("a-b", .primitive .string)]

def described : Descriptor :=
  ⟨"kno\"ws\n", .link, .many, .link [["default_User"]], [⟨"a b", visitType⟩, ⟨"a_b", .primitive .string⟩]⟩

def scope : Scope :=
  ⟨⟨[visit, place, str, user]⟩, ⟨[]⟩, {}, none⟩

theorem read_back :
    (scope.describe user.name knows = .ok described ∧
        accessorNames 0 (described.getterLines {}) = ["kno\"ws\n"] ∧
          entryNames 3 (described.getterLines {}) = ["a b", "a_b"]) ∧
      scope.typeExpr user.name visit.id = .ok visitType ∧
        fieldNames 0 visitType.text.toList = ["a_b", "a: b", "a-b"] := by
  obtain ⟨_, _, _, links, tuples⟩ := memberKey_names_members
  have link : scope.describe user.name knows = .ok described := by cbv
  have tuple : scope.typeExpr user.name visit.id = .ok visitType := by cbv
  exact ⟨⟨link, links {} user.name knows described scope link⟩, tuple,
    tuples user.name visit.id visit _ visitType scope (by cbv) rfl (by decide) tuple⟩

end OddMembers
end QueryShapes
