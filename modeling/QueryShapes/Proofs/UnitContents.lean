import QueryShapes.Proofs.Emission
import QueryShapes.Proofs.ObjectLiteral

namespace QueryShapes

namespace OutputTree

/-- The body of the unit at a path, which is empty where there is none. -/
def bodyAt (t : OutputTree) (path : String) : List Line :=
  ((t.get? path).getD {}).body

theorem bodyAt_update {f : OutputUnit → OutputUnit} {lines : List Line}
    (adds : ∀ u, (f u).body = u.body ++ lines) (t : OutputTree) (path other : String) :
    (t.update path f).bodyAt other = t.bodyAt other ++ if path = other then lines else [] := by
  unfold bodyAt
  rw [get?_update]
  by_cases same : other = path
  · subst same
    simp [adds]
  · simp [same, Ne.symm same]

theorem bodyAt_update_of_ne {path other : String} (different : other ≠ path) (t : OutputTree)
    (f : OutputUnit → OutputUnit) : (t.update path f).bodyAt other = t.bodyAt other := by
  rw [bodyAt, get?_update, if_neg different, bodyAt]

theorem bodyAt_foldl_update {α : Type} (path : α → String) {f : α → OutputUnit → OutputUnit}
    {lines : α → List Line} (adds : ∀ a u, (f a u).body = u.body ++ lines a) (items : List α) (t : OutputTree)
    (other : String) :
    (items.foldl (fun t a => t.update (path a) (f a)) t).bodyAt other =
      t.bodyAt other ++ (items.filter (path · = other)).flatMap lines := by
  induction items generalizing t with
  | nil => simp
  | cons a items ih =>
    rw [List.foldl_cons, ih, bodyAt_update (adds a)]
    by_cases same : path a = other <;> simp [same]

end OutputTree

/-- The member that a line of an object literal takes from the variable of the same name. -/
def Line.shorthand? : Line → Option String
  | .text 2 content => between "" "," content
  | _ => none

/-- The members of the object that the base unit returns. -/
def returnedMembers (lines : List Line) : List String :=
  ((lines.dropWhile (· ≠ .text 1 "return \x7b")).tail.takeWhile (· ≠ .text 1 "\x7d;")).filterMap Line.shorthand?

theorem Composite.return_not_mem_lines (lib : ClientLibrary) (symbol : String) (c : Composite) :
    .text 1 "return \x7b" ∉ nested (c.lines lib symbol) := by
  have opens : "return \x7b" ≠ "const " ++ symbol ++ " = \x7b" := by
    simp [← String.toList_inj]
  simp [lines, Line.of, opens]

theorem returnedMembers_baseBody (lib : ClientLibrary) (objects : List ObjectDefinition) :
    returnedMembers (baseBody lib objects) = objects.map ObjectDefinition.symbol := by
  have passed : ∀ line ∈ .text 0 "const base = (function() \x7b" ::
      nested (objects.flatMap fun d => d.composite.lines lib d.symbol), line ≠ .text 1 "return \x7b" := by
    refine List.forall_mem_cons.mpr ⟨by simp, ?_⟩
    rintro line member rfl
    rw [nested, List.map_flatMap] at member
    obtain ⟨d, _, member⟩ := List.mem_flatMap.mp member
    exact Composite.return_not_mem_lines _ _ _ member
  have symbols : ∀ line ∈ nested (nested (objects.map fun d => .of (d.symbol ++ ","))), line ≠ .text 1 "\x7d;" :=
    fun line member same => by simp [same] at member
  obtain ⟨last, parts⟩ : ∃ last, baseBody lib objects =
      (.text 0 "const base = (function() \x7b" ::
          nested (objects.flatMap fun d => d.composite.lines lib d.symbol)) ++
        .text 1 "return \x7b" :: (nested (nested (objects.map fun d => .of (d.symbol ++ ","))) ++
          .text 1 "\x7d;" :: last) :=
    ⟨_, by simp [baseBody, nested, Line.of, Line.nest]; rfl⟩
  have read (d : ObjectDefinition) : between "" "," (d.symbol ++ ",") = some d.symbol := by
    simpa using between_append "" d.symbol ","
  unfold returnedMembers
  rw [parts, List.dropWhile_append_of_pos (by simpa using passed)]
  rw [List.dropWhile_cons_of_neg (by simp), List.tail_cons, List.takeWhile_append_of_pos (by simpa using symbols),
    List.takeWhile_cons_of_neg (by simp), List.append_nil]
  simp [nested, Line.of, Line.nest, Line.shorthand?, List.filterMap_map, Function.comp_def, read]

namespace ObjectDefinition

variable {lib : ClientLibrary} {d : ObjectDefinition}

end ObjectDefinition

namespace Scope

/-- What the enums and objects of a module's unit add to its body. -/
def moduleBody (s : Scope) (enums : List Enumeration) (objects : List ObjectDefinition) (path : String) :
    List Line :=
  (enums.filter fun e => moduleUnit e.name.moduleName = path).flatMap Enumeration.lines ++
    (objects.filter fun d => moduleUnit d.name.moduleName = path).flatMap (·.exportLines s.config.library)

/-- The lines of both cast maps. -/
def castLines (s : Scope) (casts : CastMap) : List Line :=
  (s.scalarMatrix casts).lines "getSharedParentScalar" ++ [.blank] ++ s.objectMatrix.lines "getSharedParentObject"

theorem bodyAt_writeEnums (enums : List Enumeration) (path : String) :
    (writeEnums enums {}).bodyAt path =
      (enums.filter fun e => moduleUnit e.name.moduleName = path).flatMap Enumeration.lines := by
  have adds (e : Enumeration) (u : OutputUnit) : (u.addBody e.lines).body = u.body ++ e.lines := rfl
  exact OutputTree.bodyAt_foldl_update (fun e : Enumeration => moduleUnit e.name.moduleName) adds enums {} path

theorem body_addImports (lib : ClientLibrary) (m : String) (u : OutputUnit) :
    (ObjectDefinition.addImports lib m u).body = u.body := by
  unfold ObjectDefinition.addImports
  split
  · rfl
  · rename_i unmarked
    rw [OutputUnit.mark, if_neg unmarked]
    rfl

theorem bodyAt_writeObjects (lib : ClientLibrary) (enumModules : List String) (objects : List ObjectDefinition)
    (t : OutputTree) {path : String} (notBase : path ≠ baseUnit) :
    (writeObjects lib enumModules objects t).bodyAt path = t.bodyAt path ++
      (objects.filter fun d => moduleUnit d.name.moduleName = path).flatMap (·.exportLines lib) := by
  have adds (d : ObjectDefinition) (u : OutputUnit) :
      ((ObjectDefinition.addImports lib d.name.moduleName u).addBody (d.exportLines lib)).body =
        u.body ++ d.exportLines lib := by
    rw [OutputUnit.addBody, body_addImports]
  have written := OutputTree.bodyAt_foldl_update (fun d : ObjectDefinition => moduleUnit d.name.moduleName) adds
    objects (t.update baseUnit fun u => { u.addHead (baseHead lib enumModules) with
      body := baseBody lib objects }) path
  rw [OutputTree.bodyAt_update_of_ne notBase] at written
  exact written

theorem bodyAt_emission (s : Scope) (casts : CastMap) (enums : List Enumeration) (objects : List ObjectDefinition)
    {path : String} (notBase : path ≠ baseUnit) (notIndex : path ≠ indexUnit) :
    (s.emission casts enums objects).tree.bodyAt path =
      s.moduleBody enums objects path ++ if castUnit = path then s.castLines casts else [] := by
  have added (lines : List Line) (u : OutputUnit) : (u.addBody lines).body = u.body ++ lines := rfl
  rw [emission, writeCastMaps, OutputTree.bodyAt_update (added _), writeIndex,
    OutputTree.bodyAt_update_of_ne notIndex, bodyAt_writeObjects _ _ _ _ notBase, bodyAt_writeEnums]
  rfl

end Scope
end QueryShapes
