import QueryShapes.Proofs.CastMapText
import QueryShapes.Proofs.CommonAncestors
import QueryShapes.Proofs.EmittedFields
import QueryShapes.Proofs.ResolvedTargets
import QueryShapes.Proofs.UnitContents

namespace QueryShapes
open Relation

/-- A kept concrete object type has the name. -/
def Scope.KeepsName (s : Scope) (name : String) : Prop :=
  ∃ r ∈ s.graph.records, s.keepsShape r = true ∧ r.name = name

namespace Scope

section Emitted

variable {s : Scope} {objects : List ObjectDefinition} {enums : List Enumeration} {casts : CastMap}

section Ordered

variable (ordered : s.IsOrdered) (names : (s.graph.records.map TypeRecord.name).Nodup)
include ordered names

end Ordered

end Emitted

end Scope

namespace Generation

end Generation

namespace Gallery

def root : TypeRecord :=
  ⟨⟨"root"⟩, "std::Object", .object ⟨false, [], [], [], []⟩⟩

def color : TypeRecord :=
  ⟨⟨"color"⟩, "default::Color", .scalar ⟨false, [], ["red", "dark red"], none⟩⟩

def colors : TypeRecord :=
  ⟨⟨"colors"⟩, "array", .array color.id⟩

def named : TypeRecord :=
  ⟨⟨"named"⟩, "default::Named", .object ⟨false, [root.id], [], [],
    [⟨"colors", .property, .one, colors.id, none, []⟩]⟩⟩

def post : TypeRecord :=
  ⟨⟨"post"⟩, "default::Post", .object ⟨false, [named.id], [], [],
    [⟨"author", .link, .one, named.id, none, [⟨"shade", color.id⟩]⟩]⟩⟩

/-- Refers to an enum behind an array and in a link, and to a shape by a base and by a link. -/
def snapshot : Snapshot where
  types := [post, root, color, colors, named]
  casts := []

def scope : Scope :=
  ⟨⟨snapshot.types⟩, ⟨[root.id, named.id, post.id, color.id]⟩, {}, some root⟩

theorem scope_eq : snapshot.scope {} = .ok scope := by
  cbv

theorem shapeTypes_eq : scope.shapeTypes = [root, named, post] := by
  cbv

def enums : List Enumeration :=
  [⟨⟨"default", "Color"⟩, ["red", "dark red"]⟩]

def objects : List ObjectDefinition :=
  [⟨⟨"std", "Object"⟩, .ofMembers [] []⟩,
    ⟨⟨"default", "Named"⟩, .ofMembers [.spread "std_Object"]
      [⟨"colors", .property, .one, .property (.array (.enumeration ⟨"default", "Color"⟩)), []⟩]⟩,
    ⟨⟨"default", "Post"⟩, .ofMembers [.spread "default_Named"]
      [⟨"author", .link, .one, .link [["default_Named"]], [⟨"shade", .enumeration ⟨"default", "Color"⟩⟩]⟩]⟩]

def generation : Generation :=
  scope.emission (.ofImplicit snapshot.casts) enums objects

theorem generate_eq : snapshot.generate {} = .ok generation := by
  have listed : scope.enumerations = .ok enums := by cbv
  have defined : scope.objectDefinitions = .ok objects := by cbv
  exact Snapshot.generate_eq_ok_iff.mpr
    ⟨scope, scope_eq, Scope.generate_eq_ok_iff.mpr ⟨_, _, listed, defined, rfl⟩⟩

end Gallery
end QueryShapes
