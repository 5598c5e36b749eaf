import QueryShapes.Document.Format
import QueryShapes.Schema.Record

namespace QueryShapes

/-- A pointer as a document spells it. -/
structure PointerRow where
  name : String := ""
  kind : String := ""
  cardinality : String := ""
  required : Bool := false
  target : TypeId := ⟨""⟩
  expr : Option String := none
  pointers : Option (List LinkProperty) := none

/-- A type as a document spells it: the fields of all kinds of types at once. -/
structure TypeRow where
  id : TypeId := ⟨""⟩
  name : String := ""
  kind : String := ""
  isAbstract : Bool := false
  enumValues : Option (List String) := none
  material : Option TypeId := none
  bases : List TypeId := []
  unionOf : List TypeId := []
  intersectionOf : List TypeId := []
  pointers : List PointerRow := []
  arrayElement : Option TypeId := none
  tupleElements : List TupleElement := []

structure SnapshotRow where
  types : List TypeRow := []
  casts : List Cast := []

open Value

def readId (v : Value) : Except Fault TypeId :=
  v.readText.map TypeId.mk

def referenceFormat : RecordFormat TypeId where
  blank := ⟨""⟩
  fields := [.required "id" readId fun x _ => x]

def linkPropertyFormat : RecordFormat LinkProperty where
  blank := ⟨"", ⟨""⟩⟩
  fields := [
    .required "name" readText fun x r => { r with name := x },
    .required "target_id" readId fun x r => { r with target := x }]

def pointerFormat : RecordFormat PointerRow where
  blank := {}
  fields := [
    .required "name" readText fun x r => { r with name := x },
    .required "kind" readText fun x r => { r with kind := x },
    .required "cardinality" readText fun x r => { r with cardinality := x },
    .defaulted "required" readFlag fun x r => { r with required := x },
    .required "target_id" readId fun x r => { r with target := x },
    .defaulted "expr" (readOptional readText) fun x r => { r with expr := x },
    .defaulted "pointers" (readOptional (readList linkPropertyFormat.read)) fun x r => { r with pointers := x }]

def tupleElementFormat : RecordFormat TupleElement where
  blank := ⟨"", ⟨""⟩⟩
  fields := [
    .defaulted "name" (readOptional readText) fun x r => { r with name := x.getD "" },
    .required "target_id" readId fun x r => { r with target := x }]

def typeFormat : RecordFormat TypeRow where
  blank := {}
  fields := [
    .required "id" readId fun x r => { r with id := x },
    .required "name" readText fun x r => { r with name := x },
    .required "kind" readText fun x r => { r with kind := x },
    .defaulted "is_abstract" readFlag fun x r => { r with isAbstract := x },
    .defaulted "enum_values" (readOptional (readList readText)) fun x r => { r with enumValues := x },
    .defaulted "material_id" (readOptional readId) fun x r => { r with material := x },
    .defaulted "bases" (readList referenceFormat.read) fun x r => { r with bases := x },
    .defaulted "union_of" (readList referenceFormat.read) fun x r => { r with unionOf := x },
    .defaulted "intersection_of" (readList referenceFormat.read) fun x r => { r with intersectionOf := x },
    .defaulted "pointers" (readList pointerFormat.read) fun x r => { r with pointers := x },
    .defaulted "array_element_id" (readOptional readId) fun x r => { r with arrayElement := x },
    .defaulted "tuple_elements" (readList tupleElementFormat.read) fun x r => { r with tupleElements := x }]

def castFormat : RecordFormat Cast where
  blank := ⟨⟨""⟩, ⟨""⟩, false, false⟩
  fields := [
    .required "source" referenceFormat.read fun x r => { r with source := x },
    .required "target" referenceFormat.read fun x r => { r with target := x },
    .defaulted "allow_implicit" readFlag fun x r => { r with allowImplicit := x },
    .defaulted "allow_assignment" readFlag fun x r => { r with allowAssignment := x }]

def snapshotFormat : RecordFormat SnapshotRow where
  blank := {}
  fields := [
    .required "types" (readList typeFormat.read) fun x r => { r with types := x },
    .defaulted "casts" (readList castFormat.read) fun x r => { r with casts := x }]

end QueryShapes
