import QueryShapes.Proofs.Representations
import QueryShapes.Shape.Inheritance

namespace QueryShapes

namespace Graph

/-- Two graphs that give the same type for every id, in whatever order they hold them. -/
def SameTypes (g g' : Graph) : Prop :=
  ∀ id, g.get? id = g'.get? id

theorem SameTypes.of_perm {g g' : Graph} (distinct : g.ids.Nodup) (perm : g.records.Perm g'.records) :
    g.SameTypes g' := by
  have distinct' : g'.ids.Nodup := (perm.map TypeRecord.id).nodup_iff.mp distinct
  intro id
  cases found : g.get? id with
  | some r => rw [← id_of_get? found, get?_of_mem distinct' (perm.mem_iff.mp (mem_of_get? found))]
  | none =>
    cases found' : g'.get? id with
    | none => rfl
    | some r =>
      rw [← id_of_get? found', get?_of_mem distinct (perm.mem_iff.mpr (mem_of_get? found'))] at found
      cases found

section Graphs

variable {g g' : Graph} (same : g.SameTypes g')
include same

theorem SameTypes.resolve (referencing : String) (id : TypeId) :
    g.resolve referencing id = g'.resolve referencing id := by
  rw [Graph.resolve, same, Graph.resolve]

theorem SameTypes.leads (edges : TypeRecord → List TypeId) : g.Leads edges = g'.Leads edges := by
  funext r b
  simp only [Leads, same _]

theorem SameTypes.reachable (pending seen : List TypeId) :
    g.reachable pending seen = g'.reachable pending seen := by
  fun_induction Graph.reachable g pending seen with
  | case1 => rw [Graph.reachable]
  | case2 id pending seen old ih => rw [ih, Graph.reachable, dif_pos old]
  | case3 id pending seen new missing ih =>
    rw [same] at missing
    rw [ih, Graph.reachable, dif_neg new]
    split <;> simp_all
  | case4 id pending seen new r found ih =>
    rw [same] at found
    rw [ih, Graph.reachable, dif_neg new]
    split <;> simp_all

theorem SameTypes.isDescendant (id ancestor : TypeId) :
    g.isDescendant id ancestor = g'.isDescendant id ancestor := by
  rw [Graph.isDescendant, Graph.ancestors, same, Graph.isDescendant, Graph.ancestors]
  simp only [same.reachable]

theorem SameTypes.resolveObject (referencing : String) (id : TypeId) :
    g.resolveObject referencing id = g'.resolveObject referencing id := by
  rw [Graph.resolveObject, same.resolve, Graph.resolveObject]

theorem SameTypes.flatten (junction : Junction) (pending : List (String × TypeId)) (seen : List TypeId) :
    g.flatten junction pending seen = g'.flatten junction pending seen := by
  fun_induction Graph.flatten g junction pending seen with
  | case1 => rw [Graph.flatten]
  | case2 owner id pending seen old ih => rw [ih, Graph.flatten, dif_pos old]
  | case3 owner id pending seen new e failed =>
    rw [same.resolveObject] at failed
    rw [Graph.flatten, dif_neg new]
    split <;> simp_all
  | case4 owner id pending seen new member o found mixed =>
    rw [same.resolveObject] at found
    rw [Graph.flatten, dif_neg new]
    split <;> simp_all
  | case5 owner id pending seen new member o found plain nested ih =>
    rw [same.resolveObject] at found
    rw [ih, Graph.flatten, dif_neg new]
    split <;> simp_all
  | case6 owner id pending seen new member o found plain flat ih =>
    rw [same.resolveObject] at found
    rw [ih, Graph.flatten, dif_neg new]
    split <;> simp_all

theorem SameTypes.groups (target : TypeRecord) (o : ObjectType) : g.groups target o = g'.groups target o := by
  rw [Graph.groups, same.flatten, same.flatten, Graph.groups]

end Graphs
end Graph

namespace Scope

theorem typeExprFrom_missing {s : Scope} {path : List TypeId} {referencing : String} {id : TypeId}
    (missing : s.graph.get? id = none) :
    s.typeExprFrom path referencing id = .error (.unknownReference referencing id) := by
  rw [typeExprFrom, Graph.resolve_eq_error_iff.mpr ⟨missing, rfl⟩]

theorem typeExprFrom_on_path {s : Scope} {path : List TypeId} {r : TypeRecord} {referencing : String} {id : TypeId}
    (found : s.graph.get? id = some r) (old : r.id ∈ path) :
    s.typeExprFrom path referencing id = .error (.dependencyCycle r.name referencing) := by
  rw [typeExprFrom, Graph.resolve_eq_ok_iff.mpr found]
  exact dif_pos old

/-- Scopes of the same types, configuration and root may still have the types in another order. -/
structure SameTypes (s s' : Scope) : Prop where
  graph : s.graph.SameTypes s'.graph
  config : s.config = s'.config
  root : s.root = s'.root

section Scopes

variable {s s' : Scope} (same : s.SameTypes s')
include same

theorem SameTypes.excludes (name : String) : s.excludes name = s'.excludes name := by
  rw [Scope.excludes, same.config, Scope.excludes]

theorem SameTypes.keepsObject (r : TypeRecord) : s.keepsObject r = s'.keepsObject r := by
  rw [Scope.keepsObject, same.excludes, same.root, Scope.keepsObject]
  simp only [same.graph.isDescendant]

theorem SameTypes.keepsShape : s.keepsShape = s'.keepsShape := by
  funext r
  rw [Scope.keepsShape, same.keepsObject, Scope.keepsShape]

theorem SameTypes.keepsEnum : s.keepsEnum = s'.keepsEnum := by
  funext r
  rw [Scope.keepsEnum, same.excludes, Scope.keepsEnum]

theorem SameTypes.represent (below : String → TypeId → Except SchemaError TypeExpr) (referencing : String)
    (id : TypeId) : s.represent below referencing id = s'.represent below referencing id := by
  rw [Scope.represent, same.graph.resolve, same.keepsEnum, Scope.represent]

theorem SameTypes.typeExprFrom (path : List TypeId) : s.typeExprFrom path = s'.typeExprFrom path := by
  induction unseen : fresh s.graph.ids path using Nat.strongRecOn generalizing path with
  | ind n ih =>
    funext referencing id
    cases found : s.graph.get? id with
    | none => rw [typeExprFrom_missing found, typeExprFrom_missing ((same.graph id).symm.trans found)]
    | some r =>
      have found' := (same.graph id).symm.trans found
      by_cases old : r.id ∈ path
      · rw [typeExprFrom_on_path found old, typeExprFrom_on_path found' old]
      · have less := fresh_cons_lt (List.mem_map_of_mem (Graph.mem_of_get? found)) old
        rw [typeExprFrom_step found old, typeExprFrom_step found' old, same.represent, ih _ (unseen ▸ less) _ rfl]

theorem SameTypes.typeExpr (referencing : String) (id : TypeId) :
    s.typeExpr referencing id = s'.typeExpr referencing id :=
  congrFun (congrFun (same.typeExprFrom []) referencing) id

theorem SameTypes.linkTarget (referencing : String) (id : TypeId) :
    s.linkTarget referencing id = s'.linkTarget referencing id := by
  rw [Scope.linkTarget, same.graph.resolveObject, Scope.linkTarget]
  simp only [same.graph.groups, same.keepsShape]

theorem SameTypes.describe (owner : String) (p : Pointer) : s.describe owner p = s'.describe owner p := by
  have target : s.pointerTarget owner p = s'.pointerTarget owner p := by
    rw [Scope.pointerTarget, same.graph.resolve, same.linkTarget, same.typeExpr, Scope.pointerTarget]
  have properties : s.linkProperty owner = s'.linkProperty owner := by
    funext q
    rw [Scope.linkProperty, same.typeExpr, Scope.linkProperty]
  rw [Scope.describe, target, properties, Scope.describe]

theorem SameTypes.declared (r : TypeRecord) : s.declared r = s'.declared r :=
  mapM_congr fun p _ => same.describe r.name p

theorem SameTypes.inherit (pending : List BaseVisit) (seen : List TypeId) :
    s.inherit pending seen = s'.inherit pending seen := by
  fun_induction Scope.inherit s pending seen with
  | case1 => rw [Scope.inherit]
  | case2 base pending seen ih => rw [ih, Scope.inherit]
  | case3 referencing id pending seen e failed =>
    rw [same.graph.resolve] at failed
    rw [Scope.inherit]
    split <;> simp_all
  | case4 referencing id pending seen base found kept ih =>
    rw [same.graph.resolve] at found
    rw [same.keepsShape] at kept
    rw [ih, Scope.inherit]
    split <;> simp_all
  | case5 referencing id pending seen base found elided old ih =>
    rw [same.graph.resolve] at found
    rw [same.keepsShape] at elided
    rw [ih, Scope.inherit]
    split <;> simp_all
  | case6 referencing id pending seen base found elided new ih =>
    rw [same.graph.resolve] at found
    rw [same.keepsShape] at elided
    rw [ih, Scope.inherit]
    split <;> simp_all

theorem SameTypes.composite (r : TypeRecord) : s.composite r = s'.composite r := by
  have collected : s.inheritances r = s'.inheritances r := same.inherit _ _
  have members : s.inheritedMembers = s'.inheritedMembers := by
    funext i
    cases i with
    | kept base => rfl
    | elided base => rw [Scope.inheritedMembers, same.declared, Scope.inheritedMembers]
  rw [Scope.composite, collected, members, same.declared, Scope.composite]

end Scopes
end Scope
end QueryShapes
