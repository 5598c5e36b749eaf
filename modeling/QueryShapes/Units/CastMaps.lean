import QueryShapes.ModulePath
import QueryShapes.Output.Tree
import QueryShapes.Scope
import QueryShapes.Cast.Table

namespace QueryShapes

namespace TypeRecord

def candidate (r : TypeRecord) : Candidate :=
  ⟨r.id, r.name⟩

end TypeRecord

namespace Scope

/-- Material scalars meet by implicit casts, or not at all. -/
def scalarMatrix (s : Scope) (casts : CastMap) : CastMatrix :=
  .build (s.materialScalars.map TypeRecord.candidate) casts .never

/-- Object types meet at a common ancestor, in the end at the root. -/
def objectMatrix (s : Scope) : CastMatrix :=
  let types := s.comparedObjects
  let fallback := match s.root with
    | some root => .type root.name
    | none => .never
  .build (types.map TypeRecord.candidate) (.ofAncestors s.graph (types.map TypeRecord.id)) fallback

end Scope

def writeCastMaps (scalars objects : CastMatrix) (t : OutputTree) : OutputTree :=
  t.update castUnit (·.addBody
    (scalars.lines "getSharedParentScalar" ++ [.blank] ++ objects.lines "getSharedParentObject"))

end QueryShapes
