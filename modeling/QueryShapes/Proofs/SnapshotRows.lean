import Mathlib
import QueryShapes.Document.Snapshot
import QueryShapes.Proofs.Outcome

namespace QueryShapes

/-- The words for the kinds of pointers. -/
def pointerWords : List String :=
  ["property", "link", "computable"]

/-- The words for how many values a pointer holds. -/
def amountWords : List String :=
  ["ONE", "MANY"]

/-- The words for the kinds of types. -/
def kindWords : List String :=
  ["scalar", "object", "array", "tuple"]

theorem ofMarker?_eq_none_iff {word : String} : PointerKind.ofMarker? word = none ↔ word ∉ pointerWords := by
  unfold PointerKind.ofMarker?
  split <;> simp_all [pointerWords]

theorem marker_of_ofMarker? {word : String} {kind : PointerKind}
    (spelled : PointerKind.ofMarker? word = some kind) :
    kind.marker = word := by
  unfold PointerKind.ofMarker? at spelled
  split at spelled <;> cases spelled <;> rfl

theorem isMany?_eq_none_iff {word : String} : isMany? word = none ↔ word ∉ amountWords := by
  unfold isMany?
  split <;> simp_all [amountWords]

theorem isMulti_of_isMany? {word : String} {isMany : Bool} (amount : isMany? word = some isMany) (required : Bool) :
    (Cardinality.ofFlags isMany required).isMulti = true ↔ word = "MANY" := by
  unfold isMany? at amount
  split at amount <;> cases amount <;> cases required <;> decide

theorem isRequired_ofFlags (isMany required : Bool) :
    (Cardinality.ofFlags isMany required).isRequired = required := by
  cases isMany <;> cases required <;> rfl

namespace PointerRow

/-- Kind and cardinality are spelled by words that are known. -/
def IsKnown (row : PointerRow) : Prop :=
  row.kind ∈ pointerWords ∧ row.cardinality ∈ amountWords

instance (row : PointerRow) : Decidable row.IsKnown :=
  inferInstanceAs (Decidable (_ ∧ _))

/-- What is wrong with a pointer of a named type. The kind is looked at before the cardinality. -/
inductive HasProblem (owner : String) (row : PointerRow) : DocumentError → Prop
  | kind : row.kind ∉ pointerWords →
      HasProblem owner row (.invalidAttribute (owner ++ "." ++ row.name) "kind" row.kind)
  | cardinality : row.kind ∈ pointerWords → row.cardinality ∉ amountWords →
      HasProblem owner row (.invalidAttribute (owner ++ "." ++ row.name) "cardinality" row.cardinality)

/-- What a pointer keeps of its row. Its kind and its cardinality are read back from it as words. -/
structure Describes (row : PointerRow) (p : Pointer) : Prop where
  name : p.name = row.name
  kind : p.kind.marker = row.kind
  many : p.cardinality.isMulti = true ↔ row.cardinality = "MANY"
  required : p.cardinality.isRequired = row.required
  target : p.target = row.target
  expr : p.expr = row.expr
  linkProperties : p.linkProperties = row.pointers.getD []

theorem HasProblem.not_isKnown {owner : String} {row : PointerRow} {e : DocumentError}
    (problem : row.HasProblem owner e) : ¬row.IsKnown := by
  rintro ⟨kind, cardinality⟩
  rcases problem with unknown | ⟨_, unknown⟩
  · exact unknown kind
  · exact unknown cardinality

theorem HasProblem.unique {owner : String} {row : PointerRow} {e e' : DocumentError}
    (problem : row.HasProblem owner e) (problem' : row.HasProblem owner e') : e = e' := by
  rcases problem with unknown | ⟨known, _⟩ <;> rcases problem' with unknown' | ⟨known', _⟩
  · rfl
  · exact absurd known' unknown
  · exact absurd known unknown'
  · rfl

/-- A pointer is made of a row whose words are known, and only of such a row. -/
theorem toPointer_outcome (owner : String) (row : PointerRow) :
    (∃ p, row.toPointer owner = .ok p ∧ row.IsKnown ∧ row.Describes p) ∨
      ∃ e, row.toPointer owner = .error e ∧ row.HasProblem owner e := by
  unfold toPointer
  cases kind : PointerKind.ofMarker? row.kind with
  | none => exact Or.inr ⟨_, rfl, .kind (ofMarker?_eq_none_iff.mp kind)⟩
  | some k =>
    have known : row.kind ∈ pointerWords := by
      by_contra unknown
      rw [ofMarker?_eq_none_iff.mpr unknown] at kind
      cases kind
    cases amount : isMany? row.cardinality with
    | none => exact Or.inr ⟨_, rfl, .cardinality known (isMany?_eq_none_iff.mp amount)⟩
    | some isMany =>
      have knownAmount : row.cardinality ∈ amountWords := by
        by_contra unknown
        rw [isMany?_eq_none_iff.mpr unknown] at amount
        cases amount
      exact Or.inl ⟨_, rfl, ⟨known, knownAmount⟩, {
        name := rfl
        kind := marker_of_ofMarker? kind
        many := isMulti_of_isMany? amount row.required
        required := isRequired_ofFlags isMany row.required
        target := rfl
        expr := rfl
        linkProperties := rfl }⟩

section Conversion

variable {owner : String} {row : PointerRow} {rows : List PointerRow} {p : Pointer} {e : DocumentError}

theorem exists_toPointer_iff : (∃ p, row.toPointer owner = .ok p) ↔ row.IsKnown := by
  rcases toPointer_outcome owner row with ⟨p, converted, known, _⟩ | ⟨e, failed, problem⟩
  · exact iff_of_true ⟨p, converted⟩ known
  · simp [failed, problem.not_isKnown]

theorem describes_of_toPointer (converted : row.toPointer owner = .ok p) : row.Describes p := by
  rcases toPointer_outcome owner row with ⟨_, converted', _, describes⟩ | ⟨_, failed, _⟩
  · cases converted.symm.trans converted'
    exact describes
  · cases converted.symm.trans failed

theorem toPointer_eq_error_iff : row.toPointer owner = .error e ↔ row.HasProblem owner e := by
  rcases toPointer_outcome owner row with ⟨p, converted, known, _⟩ | ⟨e', failed, problem⟩
  · rw [converted]
    exact iff_of_false nofun fun problem => problem.not_isKnown known
  · rw [failed, Except.error.injEq]
    exact ⟨fun same => same ▸ problem, problem.unique⟩

theorem exists_mapM_toPointer_iff :
    (∃ made, rows.mapM (toPointer owner) = .ok made) ↔ ∀ row ∈ rows, row.IsKnown := by
  simp only [exists_mapM_eq_ok_iff, exists_toPointer_iff]

theorem mapM_toPointer_eq_error_iff :
    rows.mapM (toPointer owner) = .error e ↔
      ∃ before row after, rows = before ++ row :: after ∧ (∀ b ∈ before, b.IsKnown) ∧ row.HasProblem owner e := by
  simp only [mapM_eq_error_iff, exists_toPointer_iff, toPointer_eq_error_iff]

end Conversion

/-- Each pointer refers to its target and then to those of its link properties. -/
theorem flatMap_targets {rows : List PointerRow} {pointers : List Pointer}
    (each : List.Forall₂ Describes rows pointers) :
    (pointers.flatMap fun p => p.target :: p.linkProperties.map LinkProperty.target) =
      rows.flatMap fun row => row.target :: (row.pointers.getD []).map LinkProperty.target := by
  induction each with
  | nil => rfl
  | cons here _ ih => rw [List.flatMap_cons, List.flatMap_cons, ih, here.target, here.linkProperties]

end PointerRow

namespace TypeRow

/-- A row of which no record can be made. Only an object type takes notice of its pointers. -/
def Offends (row : TypeRow) : Prop :=
  row.kind ∉ kindWords ∨ (row.kind = "array" ∧ row.arrayElement = none) ∨
    (row.kind = "object" ∧ ∃ p ∈ row.pointers, ¬p.IsKnown)

instance (row : TypeRow) : Decidable row.Offends :=
  inferInstanceAs (Decidable (_ ∨ _ ∨ _))

/-- What is wrong with a row. Of the pointers of an object type the first that is not known counts. -/
inductive HasProblem (row : TypeRow) : DocumentError → Prop
  | kind : row.kind ∉ kindWords → HasProblem row (.invalidAttribute row.name "kind" row.kind)
  | element : row.kind = "array" → row.arrayElement = none →
      HasProblem row (.missingAttribute row.name "array_element_id")
  | pointer {before p after e} : row.kind = "object" → row.pointers = before ++ p :: after →
      (∀ b ∈ before, b.IsKnown) → p.HasProblem row.name e → HasProblem row e

/-- What a record keeps of its row: the fields that belong to its kind. -/
structure Describes (row : TypeRow) (record : TypeRecord) : Prop where
  id : record.id = row.id
  name : record.name = row.name
  kind : record.kind.label = row.kind
  scalar : ∀ s, record.kind = .scalar s → s = ⟨row.isAbstract, row.bases, row.enumValues.getD [], row.material⟩
  object : ∀ o, record.kind = .object o →
    o = ⟨row.isAbstract, row.bases, row.unionOf, row.intersectionOf, o.pointers⟩ ∧
      List.Forall₂ PointerRow.Describes row.pointers o.pointers
  array : ∀ element, record.kind = .array element → row.arrayElement = some element
  tuple : ∀ elements, record.kind = .tuple elements → elements = row.tupleElements

/-- The ids that a row of its kind mentions. -/
def mentions (row : TypeRow) : List TypeId :=
  match row.kind with
  | "scalar" => row.bases ++ row.material.toList
  | "object" =>
    row.bases ++ row.unionOf ++ row.intersectionOf ++
      row.pointers.flatMap fun p => p.target :: (p.pointers.getD []).map LinkProperty.target
  | "array" => row.arrayElement.toList
  | "tuple" => row.tupleElements.map TupleElement.target
  | _ => []

theorem HasProblem.offends {row : TypeRow} {e : DocumentError} (problem : row.HasProblem e) : row.Offends := by
  cases problem with
  | kind unknown => exact Or.inl unknown
  | element kind absent => exact Or.inr (Or.inl ⟨kind, absent⟩)
  | pointer kind parts _ problem => exact Or.inr (Or.inr ⟨kind, _, by simp [parts], problem.not_isKnown⟩)

/-- A record is made of a row that offends in nothing, and only of such a row. -/
theorem toRecord_outcome (row : TypeRow) :
    (∃ record, row.toRecord = .ok record ∧ ¬row.Offends ∧ row.Describes record) ∨
      ∃ e, row.toRecord = .error e ∧ row.HasProblem e := by
  unfold toRecord toKind
  split
  case h_1 kind =>
    have fits : ¬row.Offends := by simp [Offends, kind, kindWords]
    exact Or.inl ⟨_, rfl, fits, rfl, rfl, kind.symm, by simp, by simp, by simp, by simp⟩
  case h_2 kind =>
    -- Nothing but a pointer can be wrong with an object type.
    cases made : row.pointers.mapM (PointerRow.toPointer row.name) with
    | error e =>
      obtain ⟨before, p, after, parts, known, problem⟩ := PointerRow.mapM_toPointer_eq_error_iff.mp made
      exact Or.inr ⟨e, rfl, .pointer kind parts known problem⟩
    | ok pointers =>
      have known := PointerRow.exists_mapM_toPointer_iff.mp ⟨pointers, made⟩
      have fits : ¬row.Offends := by simpa [Offends, kind, kindWords] using known
      refine Or.inl ⟨_, rfl, fits, rfl, rfl, kind.symm, by simp, fun o same => ?_, by simp, by simp⟩
      cases same
      exact ⟨rfl, (mapM_eq_ok_iff.mp made).imp fun _ _ => PointerRow.describes_of_toPointer⟩
  case h_3 kind =>
    cases element : row.arrayElement with
    | none => exact Or.inr ⟨_, rfl, .element kind element⟩
    | some id =>
      have fits : ¬row.Offends := by simp [Offends, kind, kindWords, element]
      exact Or.inl ⟨_, rfl, fits, rfl, rfl, kind.symm, by simp, by simp, by simp [element], by simp⟩
  case h_4 kind =>
    have fits : ¬row.Offends := by simp [Offends, kind, kindWords]
    exact Or.inl ⟨_, rfl, fits, rfl, rfl, kind.symm, by simp, by simp, by simp, by simp⟩
  case h_5 => exact Or.inr ⟨_, rfl, .kind (by simp_all [kindWords])⟩

theorem HasProblem.toRecord_eq {row : TypeRow} {e : DocumentError} (problem : row.HasProblem e) :
    row.toRecord = .error e := by
  cases problem with
  | kind unknown =>
    unfold toRecord toKind
    split
    case h_5 => rfl
    all_goals simp_all [kindWords]
  | element kind absent =>
    simp only [toRecord, toKind, kind, absent]
    rfl
  | pointer kind parts known problem =>
    have failed := PointerRow.mapM_toPointer_eq_error_iff.mpr ⟨_, _, _, parts, known, problem⟩
    simp only [toRecord, toKind, kind, failed]
    rfl

section Conversion

variable {row : TypeRow} {record : TypeRecord} {e : DocumentError}

theorem toRecord_eq_error_iff : row.toRecord = .error e ↔ row.HasProblem e := by
  refine ⟨fun failed => ?_, HasProblem.toRecord_eq⟩
  rcases toRecord_outcome row with ⟨_, converted, _⟩ | ⟨_, failed', problem⟩
  · cases failed.symm.trans converted
  · cases failed.symm.trans failed'
    exact problem

theorem exists_toRecord_iff : (∃ record, row.toRecord = .ok record) ↔ ¬row.Offends := by
  rcases toRecord_outcome row with ⟨record, converted, fits, _⟩ | ⟨e, failed, problem⟩
  · exact iff_of_true ⟨record, converted⟩ fits
  · simp [failed, problem.offends]

theorem describes_of_toRecord (converted : row.toRecord = .ok record) : row.Describes record := by
  rcases toRecord_outcome row with ⟨_, converted', _, describes⟩ | ⟨_, failed, _⟩
  · cases converted.symm.trans converted'
    exact describes
  · cases converted.symm.trans failed

end Conversion

/-- A record refers to the ids that its row mentions, in their order. -/
theorem Describes.references_eq {row : TypeRow} {record : TypeRecord} (describes : row.Describes record) :
    record.references = row.mentions := by
  have label := describes.kind
  cases kind : record.kind with
  | scalar s =>
    rw [kind, TypeKind.label] at label
    simp only [TypeRecord.references, kind, mentions, ← label, describes.scalar s kind]
  | object o =>
    rw [kind, TypeKind.label] at label
    obtain ⟨same, pointers⟩ := describes.object o kind
    simp only [TypeRecord.references, kind, mentions, ← label, PointerRow.flatMap_targets pointers]
    rw [same]
  | array element =>
    rw [kind, TypeKind.label] at label
    simp only [TypeRecord.references, kind, mentions, ← label, describes.array element kind, Option.toList_some]
  | tuple elements =>
    rw [kind, TypeKind.label] at label
    simp only [TypeRecord.references, kind, mentions, ← label, describes.tuple elements kind]

/-- Rows that differ at most in pointers of which none takes notice. -/
def SameButPointers (row row' : TypeRow) : Prop :=
  row = row' ∨ row.kind ≠ "object" ∧ row' = { row with pointers := row'.pointers }

theorem SameButPointers.toRecord_eq {row row' : TypeRow} (same : row.SameButPointers row') :
    row'.toRecord = row.toRecord := by
  rcases same with rfl | ⟨other, same⟩
  · rfl
  · rw [same]
    unfold toRecord toKind
    split <;> simp_all

end TypeRow

/-- A document that decodes to rows. -/
def SpellsRows (text : String) (rows : SnapshotRow) : Prop :=
  (Document.ofText text).decode snapshotFormat.read = .ok rows

/-- How a document is read that decodes to rows. -/
structure ReadsRows (text : String) (rows : SnapshotRow) : Prop where
  fails : (∃ e, readSnapshot text = .error e) ↔ ∃ row ∈ rows.types, row.Offends
  first : ∀ e, readSnapshot text = .error e ↔
    ∃ before row after, rows.types = before ++ row :: after ∧ (∀ r ∈ before, ¬r.Offends) ∧ row.HasProblem e
  records : ∀ snapshot, readSnapshot text = .ok snapshot →
    List.Forall₂ (fun row record => row.Describes record ∧ record.references =
      row.mentions) rows.types snapshot.types ∧
      snapshot.casts = rows.casts
  pointers : ∀ text' rows', SpellsRows text' rows' → List.Forall₂ TypeRow.SameButPointers rows.types rows'.types →
    rows'.casts = rows.casts → readSnapshot text' = readSnapshot text

section Rows

variable {text : String} {rows : SnapshotRow}

theorem SpellsRows.readSnapshot_eq (spells : SpellsRows text rows) : readSnapshot text = rows.toSnapshot := by
  have decoded : (Document.ofText text).decode snapshotFormat.read = .ok rows := spells
  rw [readSnapshot, decoded]

theorem toSnapshot_eq_error_iff {e : DocumentError} :
    rows.toSnapshot = .error e ↔
      ∃ before row after, rows.types = before ++ row :: after ∧ (∀ r ∈ before, ¬r.Offends) ∧ row.HasProblem e := by
  simp only [SnapshotRow.toSnapshot, map_eq_error_iff, mapM_eq_error_iff, TypeRow.exists_toRecord_iff,
    TypeRow.toRecord_eq_error_iff]

theorem exists_toSnapshot_iff :
    (∃ snapshot, rows.toSnapshot = .ok snapshot) ↔ ∀ row ∈ rows.types, ¬row.Offends := by
  simp only [← TypeRow.exists_toRecord_iff, ← exists_mapM_eq_ok_iff, SnapshotRow.toSnapshot, map_eq_ok_iff]
  constructor
  · rintro ⟨_, records, converted, _⟩
    exact ⟨records, converted⟩
  · rintro ⟨records, converted⟩
    exact ⟨_, records, converted, rfl⟩

theorem toSnapshot_congr {rows' : SnapshotRow}
    (same : List.Forall₂ TypeRow.SameButPointers rows.types rows'.types) (casts : rows'.casts = rows.casts) :
    rows'.toSnapshot = rows.toSnapshot := by
  have each {types types' : List TypeRow} (same : List.Forall₂ TypeRow.SameButPointers types types') :
      types'.mapM TypeRow.toRecord = types.mapM TypeRow.toRecord := by
    induction same with
    | nil => rfl
    | cons here _ ih => rw [List.mapM_cons, List.mapM_cons, here.toRecord_eq, ih]
  rw [SnapshotRow.toSnapshot, SnapshotRow.toSnapshot, each same, casts]

/-- A document whose JSON decodes is refused for the first row of which no record can be made, with
what is wrong with that row. Otherwise each row gives one record, with the ids that the fields of its
kind hold, and each cast is kept. -/
theorem readSnapshot_reads_rows (spells : SpellsRows text rows) : ReadsRows text rows := by
  have read := spells.readSnapshot_eq
  refine ⟨?_, fun e => ?_, fun snapshot found => ?_, fun text' rows' spells' same casts => ?_⟩
  · rw [read]
    cases outcome : rows.toSnapshot with
    | error e =>
      refine iff_of_true ⟨e, rfl⟩ ?_
      by_contra none
      push Not at none
      obtain ⟨snapshot, converted⟩ := exists_toSnapshot_iff.mpr none
      cases outcome.symm.trans converted
    | ok snapshot =>
      refine iff_of_false nofun ?_
      rintro ⟨row, member, offends⟩
      exact exists_toSnapshot_iff.mp ⟨snapshot, outcome⟩ row member offends
  · rw [read]
    exact toSnapshot_eq_error_iff
  · rw [read, SnapshotRow.toSnapshot, map_eq_ok_iff] at found
    obtain ⟨records, converted, rfl⟩ := found
    refine ⟨(mapM_eq_ok_iff.mp converted).imp fun row record made => ?_, rfl⟩
    have describes := TypeRow.describes_of_toRecord made
    exact ⟨describes, describes.references_eq⟩
  · rw [read, spells'.readSnapshot_eq]
    exact toSnapshot_congr same casts

end Rows

/-- The characters of a text say what it decodes to. -/
theorem SpellsRows.of_toList {text : String} {rows : SnapshotRow} {chars : List Char}
    (spelled : text.toList = chars)
    (decoded : (Document.ofTokens (.value []) (tokensFrom [] chars)).decode snapshotFormat.read = .ok rows) :
    SpellsRows text rows := by
  rw [SpellsRows, Document.ofText, tokens, spelled]
  exact decoded

namespace StrayPointers

/-- A scalar with a pointer that is spelled by no known word. -/
def tag : TypeRow where
  id := ⟨"tag"⟩
  name := "std::str"
  kind := "scalar"
  pointers := [{ name := "size", kind := "measure", cardinality := "SOME", target := ⟨"nowhere"⟩ }]

def called : PointerRow where
  name := "name"
  kind := "property"
  cardinality := "ONE"
  required := true
  target := ⟨"tag"⟩

def friends : PointerRow where
  name := "friends"
  kind := "link"
  cardinality := "MANY"
  target := ⟨"user"⟩
  pointers := some [⟨"nickname", ⟨"tag"⟩⟩]

def user : TypeRow where
  id := ⟨"user"⟩
  name := "default::User"
  kind := "object"
  bases := [⟨"base"⟩]
  pointers := [called, friends]

def text : String :=
  r#"[[["tag", "std::str", "scalar", false, null, null, [], [], [], [["size", "measure", "SOME", false, "nowhere"]]],
    ["user", "default::User", "object", false, null, null, [["base"]], [], [],
      [["name", "property", "ONE", true, "tag"],
        ["friends", "link", "MANY", false, "user", null, [["nickname", "tag"]]]]]],
    [[["tag"], ["user"], true]]]"#

set_option maxRecDepth 8000 in
theorem spells : SpellsRows text ⟨[tag, user], [⟨⟨"tag"⟩, ⟨"user"⟩, true, false⟩]⟩ := by
  refine .of_toList String.toList_ofList ?_
  cbv

def age : PointerRow where
  name := "age"
  kind := "property"
  cardinality := "SOME"
  target := ⟨"tag"⟩

/-- An object with a pointer that is spelled by no known word. -/
def guest : TypeRow where
  id := ⟨"guest"⟩
  name := "default::Guest"
  kind := "object"
  pointers := [called, age]

def list : TypeRow where
  id := ⟨"list"⟩
  name := "array<std::str>"
  kind := "array"

def refused : String :=
  r#"[[["tag", "std::str", "scalar", false, null, null, [], [], [], [["size", "measure", "SOME", false, "nowhere"]]],
    ["guest", "default::Guest", "object", false, null, null, [], [], [],
      [["name", "property", "ONE", true, "tag"], ["age", "property", "SOME", false, "tag"]]],
    ["list", "array<std::str>", "array"]]]"#

set_option maxRecDepth 8000 in
theorem spells_refused : SpellsRows refused ⟨[tag, guest, list], []⟩ := by
  refine .of_toList String.toList_ofList ?_
  cbv

theorem reads_despite_pointers :
    SpellsRows text ⟨[tag, user], [⟨⟨"tag"⟩, ⟨"user"⟩, true, false⟩]⟩ ∧
      (∃ snapshot, readSnapshot text = .ok snapshot ∧
        snapshot.types.map TypeRecord.references = [[], [⟨"base"⟩, ⟨"tag"⟩, ⟨"user"⟩, ⟨"tag"⟩]]) ∧
        SpellsRows refused ⟨[tag, guest, list], []⟩ ∧
          readSnapshot refused = .error (.invalidAttribute "default::Guest.age" "cardinality" "SOME") := by
  have reads := readSnapshot_reads_rows spells
  have readsRefused := readSnapshot_reads_rows spells_refused
  refine ⟨spells, ?_, spells_refused, ?_⟩
  · cases outcome : readSnapshot text with
    | error e => exact absurd (reads.fails.mp ⟨e, outcome⟩) (by decide)
    | ok snapshot =>
      refine ⟨snapshot, rfl, ?_⟩
      have each := (reads.records snapshot outcome).1.imp fun row record made => made.2.symm
      have lists : List.Forall₂ Eq ([tag, user].map TypeRow.mentions) (snapshot.types.map TypeRecord.references) :=
        List.forall₂_map_left_iff.mpr (List.forall₂_map_right_iff.mpr each)
      rw [List.forall₂_eq_eq_eq] at lists
      exact lists.symm
  · have parts : guest.pointers = [called] ++ age :: [] := rfl
    have problem : guest.HasProblem _ := .pointer rfl parts (by decide) (.cardinality (by decide) (by decide))
    exact (readsRefused.first _).mpr ⟨[tag], guest, [list], rfl, by decide, problem⟩

end StrayPointers
end QueryShapes
