import QueryShapes.Output.Disk
import Mathlib.Data.List.Infix

namespace QueryShapes

theorem pathSegments_ne_nil (path : List Char) : pathSegments path ≠ [] := by
  cases path with
  | nil => exact List.cons_ne_nil _ _
  | cons c rest =>
    rw [pathSegments]
    split
    · exact List.cons_ne_nil _ _
    · split <;> exact List.cons_ne_nil _ _

theorem pathSegments_append (path rest : List Char) :
    pathSegments (path ++ '/' :: rest) = pathSegments path ++ pathSegments rest := by
  induction path with
  | nil => simp [pathSegments]
  | cons c path ih =>
    obtain ⟨segment, segments, parts⟩ := List.exists_cons_of_ne_nil (pathSegments_ne_nil path)
    rw [List.cons_append, pathSegments, ih, pathSegments, parts]
    split <;> rfl

/-- The parts of a path below a directory. -/
theorem segmentsOf_below (root path : String) :
    segmentsOf (root ++ "/" ++ path) = segmentsOf root ++ segmentsOf path := by
  have parts : (root ++ "/" ++ path).toList = root.toList ++ '/' :: path.toList := by
    simp
  rw [segmentsOf, parts, pathSegments_append, List.map_append]
  rfl

theorem segmentsOf_ne_nil (path : String) : segmentsOf path ≠ [] :=
  fun empty => pathSegments_ne_nil path.toList (List.map_eq_nil_iff.mp empty)

theorem ne_of_isDiskName {segment : String} (isName : isDiskName segment = true) :
    segment ≠ "" ∧ segment ≠ "." ∧ segment ≠ ".." := by
  simp only [isDiskName, Bool.and_eq_true, decide_eq_true_eq] at isName
  exact ⟨isName.1.1.1.1, isName.1.1.1.2, isName.1.1.2⟩

namespace Disk

theorem lookup_putEntry (place other : List String) (entry : DiskEntry) (entries : List (List String × DiskEntry)) :
    (putEntry place entry entries).lookup other = if other = place then some entry else entries.lookup other := by
  induction entries with
  | nil => by_cases same : other = place <;> simp [putEntry, same]
  | cons first entries ih =>
    obtain ⟨here, e⟩ := first
    by_cases atHere : here = place
    · subst here
      rw [putEntry, if_pos rfl, List.lookup_cons, List.lookup_cons]
      by_cases same : other = place
      · simp [same]
      · have apart : (other == place) = false := by simpa using same
        simp [same, apart]
    · rw [putEntry, if_neg atHere, List.lookup_cons, ih, List.lookup_cons]
      by_cases same : other = here
      · subst other
        simp [atHere]
      · have apart : (other == here) = false := by simpa using same
        simp [apart]

theorem get?_put {place : List String} (below : place.all (· == "..") = false) (d : Disk) (entry : DiskEntry)
    (other : List String) :
    (d.put place entry).get? other = if other = place then some entry else d.get? other := by
  unfold get?
  by_cases same : other = place
  · subst same
    rw [below, if_neg Bool.false_ne_true, if_pos rfl, put, lookup_putEntry, if_pos rfl]
  · rw [if_neg same, put, lookup_putEntry, if_neg same]

theorem all_up_concat (place : List String) {name : String} (isName : isDiskName name = true) :
    (place ++ [name]).all (· == "..") = false := by
  simp [(ne_of_isDiskName isName).2.2]

/-- Nothing stands where a file can be put but, at most, another file, and no file is on the way there. -/
structure HasRoom (d : Disk) (place : List String) : Prop where
  way : ∀ way, way <+: place → way ≠ place → ∀ text, d.get? way ≠ some (.file text)
  free : d.get? place ≠ some .directory

/-- A file that is written leaves room for those that are apart from it. -/
theorem HasRoom.beside {d written : Disk} {place other : List String} (room : d.HasRoom other)
    (ways : ∀ way, way <+: place → way ≠ place → written.get? way = some .directory)
    (elsewhere : ∀ other, ¬other <+: place → written.get? other = d.get? other)
    (apart : ¬place <+: other ∧ ¬other <+: place) : written.HasRoom other where
  way way within proper text := by
    by_cases shared : way <+: place
    · rw [ways way shared (by rintro rfl; exact apart.1 within)]
      exact fun same => by cases same
    · rw [elsewhere way shared]
      exact room.way way within proper text
  free := by
    rw [elsewhere other apart.2]
    exact room.free

/-- From one disk to another what is on the way to a place has become directories, and nothing else
has changed. -/
structure Opens (d d' : Disk) (place : List String) : Prop where
  stays : ∀ other, d.get? other = some .directory → d'.get? other = some .directory
  elsewhere : ∀ other, ¬other <+: place → d'.get? other = d.get? other

/-- A name leads one level deeper, to a directory that is there or is made. -/
theorem enter_name {segment : String} (isName : isDiskName segment = true) {d : Disk} {place : List String}
    (clear : ∀ text, d.get? (place ++ [segment]) ≠ some (.file text)) (segments : List String) :
    ∃ d' : Disk, d.enter place (segment :: segments) = d'.enter (place ++ [segment]) segments ∧
      d'.get? (place ++ [segment]) = some .directory ∧
      ∀ other, other ≠ place ++ [segment] → d'.get? other = d.get? other := by
  obtain ⟨full, stays, leaves⟩ := ne_of_isDiskName isName
  have skips : ¬(segment = "" ∨ segment = ".") := not_or.mpr ⟨full, stays⟩
  rw [enter, if_neg skips, if_neg leaves, isName, Bool.not_true, if_neg Bool.false_ne_true]
  cases found : d.get? (place ++ [segment]) with
  | none =>
    have made := get?_put (all_up_concat place isName) d .directory
    exact ⟨_, rfl, (made _).trans (if_pos rfl), fun other apart => (made other).trans (if_neg apart)⟩
  | some entry =>
    cases entry with
    | directory => exact ⟨d, rfl, found, fun _ _ => rfl⟩
    | file text => exact absurd found (clear text)

/-- Names lead to the place that they spell. -/
theorem enter_names {segments : List String} (names : ∀ segment ∈ segments, isDiskName segment = true) {d : Disk}
    {place : List String} (here : d.get? place = some .directory)
    (clear : ∀ way, way <+: segments → ∀ text, d.get? (place ++ way) ≠ some (.file text)) :
    ∃ d', d.enter place segments = (d', some (place ++ segments)) ∧ d.Opens d' (place ++ segments) ∧
      ∀ way, way <+: segments → d'.get? (place ++ way) = some .directory := by
  induction segments generalizing d place with
  | nil =>
    refine ⟨d, by rw [enter, List.append_nil], ⟨fun _ there => there, fun _ _ => rfl⟩, fun way within => ?_⟩
    rwa [List.prefix_nil.mp within, List.append_nil]
  | cons segment segments ih =>
    obtain ⟨isName, names⟩ := List.forall_mem_cons.mp names
    have inside : place ++ [segment] ++ segments = place ++ segment :: segments := (List.append_cons ..).symm
    obtain ⟨next, enters, entered, same⟩ :=
      enter_name isName (clear [segment] (List.prefix_append [segment] segments)) segments
    have clear' (way : List String) (within : way <+: segments) (text : String) :
        next.get? (place ++ [segment] ++ way) ≠ some (.file text) := by
      by_cases atOnce : way = []
      · rw [atOnce, List.append_nil, entered]
        exact fun same => by cases same
      · have further : place ++ [segment] ++ way ≠ place ++ [segment] := by simpa using atOnce
        rw [same _ further, List.append_assoc]
        exact clear (segment :: way) (List.cons_prefix_cons.mpr ⟨rfl, within⟩) text
    obtain ⟨d', finished, opens, ways⟩ := ih names entered clear'
    rw [inside] at finished opens
    have stays (other : List String) (there : d.get? other = some .directory) :
        d'.get? other = some .directory := by
      refine opens.stays other ?_
      by_cases atNext : other = place ++ [segment]
      · rw [atNext, entered]
      · rw [same other atNext, there]
    refine ⟨d', enters.trans finished, ⟨stays, fun other apart => ?_⟩, fun way within => ?_⟩
    · refine (opens.elsewhere other apart).trans (same other ?_)
      rintro rfl
      exact apart (inside ▸ List.prefix_append ..)
    · rcases way with _ | ⟨first, way⟩
      · rw [List.append_nil]
        exact stays place here
      · obtain ⟨rfl, later⟩ := List.cons_prefix_cons.mp within
        rw [List.append_cons]
        exact ways way later

/-- A file is written to the place that its path spells. -/
theorem write_names {path : String} (short : path.utf8ByteSize ≤ maxPathSize)
    (names : ∀ segment ∈ segmentsOf path, isDiskName segment = true) {d : Disk} (room : d.HasRoom (segmentsOf path))
    (contents : String) :
    ∃ d', d.write path contents = (d', true) ∧ d'.get? (segmentsOf path) = some (.file contents) ∧
      (∀ way, way <+: segmentsOf path → way ≠ segmentsOf path → d'.get? way = some .directory) ∧
      ∀ other, ¬other <+: segmentsOf path → d'.get? other = d.get? other := by
  obtain ⟨dir, name, parts⟩ : ∃ dir name, segmentsOf path = dir ++ [name] :=
    ⟨_, _, (List.dropLast_append_getLast (segmentsOf_ne_nil path)).symm⟩
  rw [parts] at names room ⊢
  obtain ⟨inDir, isName⟩ := List.forall_mem_append.mp names
  replace isName := isName name List.mem_cons_self
  have apart {way : List String} (within : way <+: dir) : way ≠ dir ++ [name] := by
    rintro rfl
    have longer := within.length_le
    rw [List.length_append, List.length_singleton] at longer
    omega
  have clear (way : List String) (within : way <+: dir) (text : String) : d.get? ([] ++ way) ≠ some (.file text) :=
    room.way way (within.trans (List.prefix_append ..)) (apart within) text
  obtain ⟨opened, entered, opens, ways⟩ := enter_names inDir (rfl : d.get? [] = some .directory) clear
  rw [List.nil_append] at entered opens
  have outside : ¬dir ++ [name] <+: dir := fun within => apart within rfl
  have free : opened.get? (dir ++ [name]) ≠ some .directory := by
    rw [opens.elsewhere _ outside]
    exact room.free
  have put := get?_put (all_up_concat dir isName) opened (.file contents)
  refine ⟨opened.put (dir ++ [name]) (.file contents), ?_, (put _).trans (if_pos rfl), fun way within other => ?_,
    fun other outside => ?_⟩
  · simp [write, Nat.not_lt.mpr short, parts, entered, isName, free]
  · rw [put, if_neg other]
    exact ways way ((List.prefix_concat_iff.mp within).resolve_left other)
  · rw [put, if_neg (by rintro rfl; exact outside List.prefix_rfl)]
    exact opens.elsewhere other fun within => outside (within.trans (List.prefix_append ..))

/-- What the paths of files must be for each of them to have a place of its own below a directory:
short, made of names, and none of them on the way to another. -/
structure Fits (root : String) (paths : List String) : Prop where
  rootNames : ∀ segment ∈ segmentsOf root, isDiskName segment = true
  names : ∀ path ∈ paths, ∀ segment ∈ segmentsOf path, isDiskName segment = true
  short : ∀ path ∈ paths, (root ++ "/" ++ path).utf8ByteSize ≤ maxPathSize
  apart : paths.Pairwise fun path other => ¬segmentsOf path <+: segmentsOf other ∧
    ¬segmentsOf other <+: segmentsOf path

theorem Fits.of_cons {root path : String} {paths : List String} (fits : Fits root (path :: paths)) :
    Fits root paths where
  rootNames := fits.rootNames
  names := (List.forall_mem_cons.mp fits.names).2
  short := (List.forall_mem_cons.mp fits.short).2
  apart := (List.pairwise_cons.mp fits.apart).2

theorem Fits.names_below {root : String} {paths : List String} (fits : Fits root paths) {path : String}
    (member : path ∈ paths) : ∀ segment ∈ segmentsOf (root ++ "/" ++ path), isDiskName segment = true := by
  rw [segmentsOf_below]
  exact List.forall_mem_append.mpr ⟨fits.rootNames, fits.names path member⟩

/-- Files that fit are all written, each to its place, and nothing that is not on the way to one of them changes. -/
theorem persistAll_files {root : String} (reason : String) {files : List (String × String)}
    (fits : Fits root (files.map Prod.fst)) {d : Disk}
    (room : ∀ file ∈ files, d.HasRoom (segmentsOf root ++ segmentsOf file.1)) :
    ∃ d', (sink root reason).persistAll files d = (.ok (), d') ∧
      (∀ file ∈ files, d'.get? (segmentsOf root ++ segmentsOf file.1) = some (.file file.2)) ∧
      ∀ other, (∀ file ∈ files, ¬other <+: segmentsOf root ++ segmentsOf file.1) →
        d'.get? other = d.get? other := by
  induction files generalizing d with
  | nil => exact ⟨d, rfl, List.forall_mem_nil _, fun _ _ => rfl⟩
  | cons file rest ih =>
    obtain ⟨path, contents⟩ := file
    rw [List.map_cons] at fits
    obtain ⟨roomHere, roomLater⟩ := List.forall_mem_cons.mp room
    have names := fits.names_below List.mem_cons_self
    rw [← segmentsOf_below] at roomHere
    obtain ⟨written, writes, file, ways, elsewhere⟩ :=
      write_names (fits.short path List.mem_cons_self) names roomHere contents
    rw [segmentsOf_below] at file ways elsewhere
    have apart : ∀ file ∈ rest, ¬segmentsOf root ++ segmentsOf path <+: segmentsOf root ++ segmentsOf file.1 ∧
        ¬segmentsOf root ++ segmentsOf file.1 <+: segmentsOf root ++ segmentsOf path := by
      intro file member
      rw [List.prefix_append_right_inj, List.prefix_append_right_inj]
      exact (List.pairwise_cons.mp fits.apart).1 file.1 (List.mem_map_of_mem member)
    have room' : ∀ file ∈ rest, written.HasRoom (segmentsOf root ++ segmentsOf file.1) :=
      fun file member => (roomLater file member).beside ways elsewhere (apart file member)
    obtain ⟨last, finished, written', untouched⟩ := ih fits.of_cons room'
    refine ⟨last, ?_, List.forall_mem_cons.mpr ⟨?_, written'⟩, fun other outside => ?_⟩
    · rw [Sink.persistAll, sink]
      simp only [writes]
      exact finished
    · rw [untouched _ fun file member => (apart file member).1]
      exact file
    · obtain ⟨here, later⟩ := List.forall_mem_cons.mp outside
      rw [untouched other later, elsewhere other here]

end Disk
end QueryShapes
