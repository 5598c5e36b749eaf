import QueryShapes.Proofs.GraphEdges
import QueryShapes.Schema.Search

namespace QueryShapes.Graph
open Relation

variable {κ : Type}

/-- The runs of the search below a source record. -/
inductive Follows (g : Graph) (key : TypeRecord → κ) (edges : TypeRecord → List TypeId) :
    List κ → TypeRecord → List TypeId → List TypeRecord → Except SchemaError (List TypeRecord) → Prop
  | finished {path source done} : Follows g key edges path source [] done (.ok done)
  | missing {path source id ids done e} :
      g.resolve source.name id = .error e → Follows g key edges path source (id :: ids) done (.error e)
  | back {path source id ids done target} :
      g.resolve source.name id = .ok target → key target ∈ path →
      Follows g key edges path source (id :: ids) done (.error (.dependencyCycle target.name source.name))
  | old {path source id ids done target outcome} :
      g.resolve source.name id = .ok target → key target ∉ path → key target ∈ done.map key →
      Follows g key edges path source ids done outcome →
      Follows g key edges path source (id :: ids) done outcome
  | failed {path source id ids done target e} :
      g.resolve source.name id = .ok target → key target ∉ path → key target ∉ done.map key →
      Follows g key edges (key target :: path) target (edges target) done (.error e) →
      Follows g key edges path source (id :: ids) done (.error e)
  | entered {path source id ids done target below outcome} :
      g.resolve source.name id = .ok target → key target ∉ path → key target ∉ done.map key →
      Follows g key edges (key target :: path) target (edges target) done (.ok below) →
      Follows g key edges path source ids (below ++ [target]) outcome →
      Follows g key edges path source (id :: ids) done outcome

theorem follow_follows [DecidableEq κ] (g : Graph) (key : TypeRecord → κ) (edges : TypeRecord → List TypeId)
    (path : List κ) (source : TypeRecord) (ids : List TypeId) (done : List TypeRecord) :
    Follows g key edges path source ids done (g.follow key edges path source ids done) := by
  induction path, source, ids, done using follow.induct g key edges with
  | case1 path source done =>
    rw [follow]
    exact .finished
  | case2 path source id ids done e unresolved =>
    rw [follow, unresolved]
    exact .missing unresolved
  | case3 path source id ids done target resolved onPath =>
    rw [follow, resolved]
    simp only [onPath, ↓reduceDIte]
    exact .back resolved onPath
  | case4 path source id ids done target resolved offPath old ih =>
    have old : key target ∈ done.map key := by simpa using old
    rw [follow, resolved]
    simp only [offPath, old, ↓reduceDIte, ↓reduceIte]
    exact .old resolved offPath old ih
  | case5 path source id ids done target resolved offPath new e failed ih =>
    have new : key target ∉ done.map key := by simpa using new
    rw [follow, resolved]
    simp only [offPath, new, failed, ↓reduceDIte, ↓reduceIte]
    rw [failed] at ih
    exact .failed resolved offPath new ih
  | case6 path source id ids done target resolved offPath new below entered ih rest =>
    have new : key target ∉ done.map key := by simpa using new
    rw [follow, resolved]
    simp only [offPath, new, entered, ↓reduceDIte, ↓reduceIte]
    rw [entered] at ih
    exact .entered resolved offPath new ih rest

/-- Each record stands after all that its edges lead to, and no key comes twice. -/
inductive PostOrdered (g : Graph) (key : TypeRecord → κ) (edges : TypeRecord → List TypeId) :
    List TypeRecord → Prop
  | nil : PostOrdered g key edges []
  | snoc {done : List TypeRecord} {r : TypeRecord} :
      PostOrdered g key edges done → r ∈ g.records → key r ∉ done.map key →
      (∀ id ∈ edges r, ∃ s, g.get? id = some s ∧ key s ∈ done.map key) →
      PostOrdered g key edges (done ++ [r])

variable {g : Graph} {key : TypeRecord → κ} {edges : TypeRecord → List TypeId}

theorem PostOrdered.mem {done : List TypeRecord} (ordered : PostOrdered g key edges done)
    {r : TypeRecord} (member : r ∈ done) : r ∈ g.records := by
  induction ordered with
  | nil => cases member
  | snoc _ here _ _ ih =>
    rcases List.mem_append.mp member with before | last
    · exact ih before
    · rwa [List.mem_singleton.mp last]

theorem PostOrdered.keys_nodup {done : List TypeRecord} (ordered : PostOrdered g key edges done) :
    (done.map key).Nodup := by
  induction ordered with
  | nil => exact .nil
  | snoc _ _ new _ ih =>
    rw [List.map_append, List.map_singleton, ← List.concat_eq_append]
    exact ih.concat new

theorem PostOrdered.edge_before {done before after : List TypeRecord} {r : TypeRecord}
    (ordered : PostOrdered g key edges done) (here : done = before ++ r :: after) {id : TypeId}
    (listed : id ∈ edges r) : ∃ s, g.get? id = some s ∧ key s ∈ before.map key := by
  induction ordered generalizing after with
  | nil => simp at here
  | @snoc done last ordered member new leads ih =>
    rcases List.eq_nil_or_concat after with rfl | ⟨after', end', rfl⟩
    · obtain ⟨rfl, same⟩ := List.append_inj' here rfl
      cases same
      exact leads id listed
    · rw [List.concat_eq_append, ← List.cons_append, ← List.append_assoc] at here
      exact ih (List.append_inj' here rfl).1

/-- What the search adds to the records that were done before. -/
structure Completes (g : Graph) (key : TypeRecord → κ) (edges : TypeRecord → List TypeId) (path : List κ)
    (ids : List TypeId) (done done' : List TypeRecord) : Prop where
  ordered : PostOrdered g key edges done'
  grows : done <+: done'
  apart : ∀ k ∈ path, k ∉ done'.map key
  covers : ∀ id ∈ ids, ∃ s, g.get? id = some s ∧ key s ∈ done'.map key

theorem key_mem_of_grows {done done' : List TypeRecord} (grows : done <+: done') {k : κ}
    (member : k ∈ done.map key) : k ∈ done'.map key :=
  (grows.map key).subset member

theorem Completes.cons {path : List κ} {id : TypeId} {ids : List TypeId} {done done' : List TypeRecord}
    {target : TypeRecord} (rest : Completes g key edges path ids done done')
    (found : g.get? id = some target) (member : key target ∈ done.map key) :
    Completes g key edges path (id :: ids) done done' where
  ordered := rest.ordered
  grows := rest.grows
  apart := rest.apart
  covers := by
    intro id' listed
    rcases List.mem_cons.mp listed with rfl | later
    · exact ⟨target, found, key_mem_of_grows rest.grows member⟩
    · exact rest.covers id' later

/-- A run that ends well lists all that the ids lead to. The keys on the path stay
out of the list, so that the record above can join it next. -/
theorem Follows.completes {path : List κ} {source : TypeRecord} {ids : List TypeId}
    {done : List TypeRecord} {outcome : Except SchemaError (List TypeRecord)}
    (run : Follows g key edges path source ids done outcome) {done' : List TypeRecord}
    (ended : outcome = .ok done') (ordered : PostOrdered g key edges done)
    (apart : ∀ k ∈ path, k ∉ done.map key) : Completes g key edges path ids done done' := by
  induction run generalizing done' with
  | finished =>
    cases ended
    exact ⟨ordered, List.prefix_refl _, apart, by simp⟩
  | missing => cases ended
  | back => cases ended
  | old resolved _ member _ ih =>
    exact (ih ended ordered apart).cons (resolve_eq_ok_iff.mp resolved) member
  | failed => cases ended
  | @entered path source id ids done target below outcome resolved offPath new _ _ inner outer =>
    have found := resolve_eq_ok_iff.mp resolved
    have apartBelow : ∀ k ∈ key target :: path, k ∉ done.map key := by
      intro k member
      rcases List.mem_cons.mp member with rfl | member
      · exact new
      · exact apart k member
    have first := inner rfl ordered apartBelow
    have joined : PostOrdered g key edges (below ++ [target]) :=
      .snoc first.ordered (mem_of_get? found) (first.apart _ (List.mem_cons_self ..)) first.covers
    have apartJoined : ∀ k ∈ path, k ∉ (below ++ [target]).map key := by
      intro k member
      have different : k ≠ key target := fun same => offPath (same ▸ member)
      simpa [different] using first.apart k (List.mem_cons_of_mem _ member)
    have rest := (outer ended joined apartJoined).cons found (by simp)
    exact ⟨rest.ordered, first.grows.trans ((List.prefix_append _ _).trans rest.grows), rest.apart, rest.covers⟩

/-- What a search lists once the record joins that it went below. -/
theorem origin_of_joined {target : TypeRecord} {below done done' : List TypeRecord}
    (origin : ∀ r ∈ below, r ∈ done ∨ g.Leads edges target r ∨ ∃ s ∈ below, g.Leads edges s r)
    (kept : below ++ [target] ⊆ done') {r : TypeRecord} (member : r ∈ below ++ [target]) :
    r ∈ done ∨ r = target ∨ ∃ s ∈ done', g.Leads edges s r := by
  rcases List.mem_append.mp member with inBelow | last
  · rcases origin r inBelow with old | edge | ⟨s, inBelow', edge⟩
    · exact Or.inl old
    · exact Or.inr (Or.inr ⟨target, kept (by simp), edge⟩)
    · exact Or.inr (Or.inr ⟨s, kept (List.mem_append_left _ inBelow'), edge⟩)
  · exact Or.inr (Or.inl (List.mem_singleton.mp last))

/-- A run that ends well keeps what was done and adds targets of edges: of the ids that it
follows, or of a record that is done in the end. -/
theorem Follows.origin {path : List κ} {source : TypeRecord} {ids : List TypeId} {done : List TypeRecord}
    {outcome : Except SchemaError (List TypeRecord)} (run : Follows g key edges path source ids done outcome)
    {done' : List TypeRecord} (ended : outcome = .ok done') :
    done ⊆ done' ∧ ∀ r ∈ done', r ∈ done ∨ (∃ id ∈ ids, g.get? id = some r) ∨ ∃ s ∈ done', g.Leads edges s r := by
  induction run generalizing done' with
  | finished =>
    cases ended
    exact ⟨List.Subset.refl _, fun r member => Or.inl member⟩
  | missing => cases ended
  | back => cases ended
  | failed => cases ended
  | old _ _ _ _ ih =>
    obtain ⟨kept, origin⟩ := ih ended
    refine ⟨kept, fun r member => (origin r member).imp_right (Or.imp_left ?_)⟩
    rintro ⟨id, listed, found⟩
    exact ⟨id, List.mem_cons_of_mem _ listed, found⟩
  | @entered path source id ids done target below outcome resolved _ _ _ _ inner outer =>
    obtain ⟨keptBelow, originBelow⟩ := inner rfl
    obtain ⟨kept, origin⟩ := outer ended
    refine ⟨fun r member => kept (List.mem_append_left _ (keptBelow member)), fun r member => ?_⟩
    rcases origin r member with joined | ⟨id', listed, found⟩ | edge
    · refine (origin_of_joined originBelow kept joined).imp_right (Or.imp_left ?_)
      rintro rfl
      exact ⟨id, List.mem_cons_self .., resolve_eq_ok_iff.mp resolved⟩
    · exact Or.inr (Or.inl ⟨id', List.mem_cons_of_mem _ listed, found⟩)
    · exact Or.inr (Or.inr edge)

/-- The error names an edge whose target has the key of a record that leads to the
edge's own source. -/
inductive ClosesCycle (g : Graph) (key : TypeRecord → κ) (edges : TypeRecord → List TypeId) :
    SchemaError → Prop
  | intro {first last target : TypeRecord} :
      first ∈ g.records → ReflTransGen (g.Leads edges) first last → g.Leads edges last target →
      key first = key target → ClosesCycle g key edges (.dependencyCycle target.name last.name)

/-- A run fails only at an edge back to its path, as long as nothing is missing. The
path holds the keys of records that lead to the source. -/
theorem Follows.closesCycle {path : List κ} {source : TypeRecord} {ids : List TypeId}
    {done : List TypeRecord} {outcome : Except SchemaError (List TypeRecord)}
    (run : Follows g key edges path source ids done outcome) {e : SchemaError} (ended : outcome = .error e)
    (closed : g.IsClosed edges) (here : source ∈ g.records) (listed : ∀ id ∈ ids, id ∈ edges source)
    (above : ∀ k ∈ path, ∃ r ∈ g.records, key r = k ∧ ReflTransGen (g.Leads edges) r source) :
    ClosesCycle g key edges e := by
  induction run with
  | finished => cases ended
  | missing unresolved =>
    obtain ⟨absent, _⟩ := resolve_eq_error_iff.mp unresolved
    obtain ⟨s, found⟩ := closed _ here _ (listed _ (List.mem_cons_self ..))
    rw [absent] at found
    cases found
  | back resolved onPath =>
    cases ended
    obtain ⟨first, member, sameKey, path⟩ := above _ onPath
    exact .intro member path ⟨_, listed _ (List.mem_cons_self ..), resolve_eq_ok_iff.mp resolved⟩ sameKey
  | old _ _ _ _ ih =>
    exact ih ended here (fun id member => listed id (List.mem_cons_of_mem _ member)) above
  | @failed path source id ids done target e' resolved _ _ _ inner =>
    have found := resolve_eq_ok_iff.mp resolved
    have edge : g.Leads edges source target := ⟨id, listed id (List.mem_cons_self ..), found⟩
    refine inner ended (mem_of_get? found) (fun _ member => member) ?_
    intro k member
    rcases List.mem_cons.mp member with rfl | member
    · exact ⟨target, mem_of_get? found, rfl, .refl⟩
    · obtain ⟨r, inGraph, sameKey, path⟩ := above k member
      exact ⟨r, inGraph, sameKey, path.tail edge⟩
  | entered _ _ _ _ _ _ outer =>
    exact outer ended here (fun id member => listed id (List.mem_cons_of_mem _ member)) above

section Roots

variable [DecidableEq κ]

theorem postOrder_completes {roots done done' : List TypeRecord}
    (ended : g.postOrder key edges roots done = .ok done') (inGraph : ∀ r ∈ roots, r ∈ g.records)
    (ordered : PostOrdered g key edges done) :
    PostOrdered g key edges done' ∧ done <+: done' ∧ ∀ r ∈ roots, key r ∈ done'.map key := by
  induction roots generalizing done with
  | nil =>
    rw [postOrder] at ended
    cases ended
    exact ⟨ordered, List.prefix_refl _, by simp⟩
  | cons root roots ih =>
    have later : ∀ r ∈ roots, r ∈ g.records := fun r member => inGraph r (List.mem_cons_of_mem _ member)
    rw [postOrder] at ended
    split at ended
    · rename_i old
      obtain ⟨ordered', grows, covers⟩ := ih ended later ordered
      exact ⟨ordered', grows, List.forall_mem_cons.mpr ⟨key_mem_of_grows grows old, covers⟩⟩
    · rename_i new
      split at ended
      · cases ended
      · rename_i below followed
        have run := follow_follows g key edges [key root] root (edges root) done
        have first := run.completes followed ordered (by simpa using new)
        have joined : PostOrdered g key edges (below ++ [root]) :=
          .snoc first.ordered (inGraph root (List.mem_cons_self ..)) (first.apart _ (by simp)) first.covers
        obtain ⟨ordered', grows, covers⟩ := ih ended later joined
        exact ⟨ordered', first.grows.trans ((List.prefix_append _ _).trans grows),
          List.forall_mem_cons.mpr ⟨key_mem_of_grows grows (by simp), covers⟩⟩

/-- Besides roots only targets of edges are listed. -/
theorem postOrder_origin {roots done done' : List TypeRecord}
    (ended : g.postOrder key edges roots done = .ok done') :
    done ⊆ done' ∧ ∀ r ∈ done', r ∈ done ∨ r ∈ roots ∨ ∃ s ∈ done', g.Leads edges s r := by
  induction roots generalizing done with
  | nil =>
    cases ended
    exact ⟨List.Subset.refl _, fun r member => Or.inl member⟩
  | cons root roots ih =>
    rw [postOrder] at ended
    split at ended
    · obtain ⟨kept, origin⟩ := ih ended
      exact ⟨kept, fun r member => (origin r member).imp_right (Or.imp_left (List.mem_cons_of_mem _))⟩
    · split at ended
      · cases ended
      · rename_i below followed
        obtain ⟨keptBelow, originBelow⟩ :=
          (follow_follows g key edges [key root] root (edges root) done).origin followed
        obtain ⟨kept, origin⟩ := ih ended
        refine ⟨fun r member => kept (List.mem_append_left _ (keptBelow member)), fun r member => ?_⟩
        rcases origin r member with joined | later | edge
        · refine (origin_of_joined originBelow kept joined).imp_right (Or.imp_left ?_)
          rintro rfl
          exact List.mem_cons_self ..
        · exact Or.inr (Or.inl (List.mem_cons_of_mem _ later))
        · exact Or.inr (Or.inr edge)

theorem postOrder_closesCycle {roots done : List TypeRecord} {e : SchemaError}
    (ended : g.postOrder key edges roots done = .error e) (inGraph : ∀ r ∈ roots, r ∈ g.records)
    (closed : g.IsClosed edges) : ClosesCycle g key edges e := by
  induction roots generalizing done with
  | nil => cases ended
  | cons root roots ih =>
    have here := inGraph root (List.mem_cons_self ..)
    have later : ∀ r ∈ roots, r ∈ g.records := fun r member => inGraph r (List.mem_cons_of_mem _ member)
    rw [postOrder] at ended
    split at ended
    · exact ih ended later
    · split at ended
      · rename_i failed
        have run := follow_follows g key edges [key root] root (edges root) done
        refine run.closesCycle (failed.trans ended) closed here (fun _ member => member) ?_
        intro k member
        exact ⟨root, here, (List.mem_singleton.mp member).symm, .refl⟩
      · exact ih ended later

end Roots

/-- When keys tell the records apart, no edges lead in a circle among the done records. -/
theorem PostOrdered.acc {done : List TypeRecord} (ordered : PostOrdered g key edges done)
    (keyed : ∀ r ∈ g.records, ∀ s ∈ g.records, key r = key s → r = s) {r : TypeRecord} (member : r ∈ done) :
    Acc (fun s r => g.Leads edges r s) r := by
  induction ordered generalizing r with
  | nil => cases member
  | @snoc done last ordered here _ leads ih =>
    rcases List.mem_append.mp member with before | atEnd
    · exact ih before
    · cases List.mem_singleton.mp atEnd
      refine ⟨_, fun s edge => ?_⟩
      obtain ⟨id, listed, found⟩ := edge
      obtain ⟨s', found', done'⟩ := leads id listed
      cases found.symm.trans found'
      obtain ⟨t, inDone, sameKey⟩ := List.mem_map.mp done'
      have same := keyed t (ordered.mem inDone) s (mem_of_get? found) sameKey
      exact ih (same ▸ inDone)

theorem PostOrdered.mem_of_leads {done : List TypeRecord} (ordered : PostOrdered g key edges done)
    (keyed : ∀ r ∈ g.records, ∀ s ∈ g.records, key r = key s → r = s) {r s : TypeRecord} (member : r ∈ done)
    (edge : g.Leads edges r s) : s ∈ done := by
  obtain ⟨before, after, parts⟩ := List.append_of_mem member
  obtain ⟨id, listed, found⟩ := edge
  obtain ⟨s', found', inBefore⟩ := ordered.edge_before parts listed
  cases found.symm.trans found'
  obtain ⟨t, member', sameKey⟩ := List.mem_map.mp inBefore
  have inDone : t ∈ done := by
    rw [parts]
    exact List.mem_append_left _ member'
  exact keyed t (ordered.mem inDone) s (mem_of_get? found) sameKey ▸ inDone

theorem PostOrdered.mem_of_transGen {done : List TypeRecord} (ordered : PostOrdered g key edges done)
    (keyed : ∀ r ∈ g.records, ∀ s ∈ g.records, key r = key s → r = s) {r s : TypeRecord} (member : r ∈ done)
    (path : TransGen (g.Leads edges) r s) : s ∈ done := by
  induction path using TransGen.head_induction_on with
  | single edge => exact ordered.mem_of_leads keyed member edge
  | head edge _ ih => exact ih (ordered.mem_of_leads keyed member edge)

/-- No edges lead from a record to a later one. -/
theorem PostOrdered.pairwise {done : List TypeRecord} (ordered : PostOrdered g key edges done)
    (keyed : ∀ r ∈ g.records, ∀ s ∈ g.records, key r = key s → r = s) :
    done.Pairwise fun r s => ¬TransGen (g.Leads edges) r s := by
  induction ordered with
  | nil => exact .nil
  | @snoc done last ordered _ new _ ih =>
    refine List.pairwise_append.mpr ⟨ih, List.pairwise_singleton _ _, fun r member s atEnd path => ?_⟩
    cases List.mem_singleton.mp atEnd
    exact new (List.mem_map_of_mem (ordered.mem_of_transGen keyed member path))

theorem not_transGen_of_acc {edge : TypeRecord → TypeRecord → Prop} {r : TypeRecord}
    (acc : Acc (fun s r => edge r s) r) : ¬TransGen edge r r := by
  induction acc.transGen with
  | intro r _ ih =>
    intro circle
    exact ih r (transGen_swap.mpr circle) acc circle

/-- An error of a search whose keys tell the records apart names a cycle. -/
theorem ClosesCycle.circle {e : SchemaError} (closes : ClosesCycle g key edges e)
    (keyed : ∀ r ∈ g.records, ∀ s ∈ g.records, key r = key s → r = s) :
    ∃ first last, e = .dependencyCycle first.name last.name ∧ first ∈ g.records ∧ last ∈ g.records ∧
      ReflTransGen (g.Leads edges) first last ∧ g.Leads edges last first := by
  obtain ⟨member, path, edge, sameKey⟩ := closes
  rename_i first last target
  cases keyed first member target edge.mem sameKey
  exact ⟨first, last, rfl, member, mem_of_reflTransGen path member, path, edge⟩

end QueryShapes.Graph
