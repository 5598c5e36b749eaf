import QueryShapes.Output.Sink

namespace QueryShapes

inductive DiskEntry
  | directory
  | file (text : String)
deriving DecidableEq, Repr

/-- Directories and files by their path from a working directory. That and the
directories above it, which are paths of upward steps alone, exist by themselves. -/
structure Disk where
  entries : List (List String × DiskEntry) := []
deriving DecidableEq, Repr

/-- The parts of a path between its slashes. -/
def pathSegments : List Char → List (List Char)
  | [] => [[]]
  | c :: rest =>
    if c = '/' then [] :: pathSegments rest
    else
      match pathSegments rest with
      | segment :: segments => (c :: segment) :: segments
      | [] => [[c]]

def segmentsOf (path : String) : List String :=
  (pathSegments path.toList).map String.ofList

/-- A name on the disk: neither empty nor a step, at most 255 bytes long and
without NUL. -/
def isDiskName (segment : String) : Bool :=
  segment ≠ "" && segment ≠ "." && segment ≠ ".." && segment.utf8ByteSize ≤ 255 && '\x00' ∉ segment.toList

/-- The longest path, in bytes, that the system accepts. -/
def maxPathSize : Nat := 4095

namespace Disk

def get? (d : Disk) (place : List String) : Option DiskEntry :=
  if place.all (· == "..") then some .directory else d.entries.lookup place

def putEntry (place : List String) (entry : DiskEntry) :
    List (List String × DiskEntry) → List (List String × DiskEntry)
  | [] => [(place, entry)]
  | (p, e) :: rest => if p = place then (p, entry) :: rest else (p, e) :: putEntry place entry rest

def put (d : Disk) (place : List String) (entry : DiskEntry) : Disk :=
  ⟨putEntry place entry d.entries⟩

/-- The directory above. -/
def above (place : List String) : List String :=
  if place.all (· == "..") then place ++ [".."] else place.dropLast

/-- Walks through directories and creates those that are missing. Gives back
the place reached, if no file and no bad name is in the way. -/
def enter (d : Disk) (place : List String) : List String → Disk × Option (List String)
  | [] => (d, some place)
  | segment :: rest =>
    if segment = "" ∨ segment = "." then enter d place rest
    else if segment = ".." then enter d (above place) rest
    else if !isDiskName segment then (d, none)
    else
      match d.get? (place ++ [segment]) with
      | some .directory => enter d (place ++ [segment]) rest
      | some (.file _) => (d, none)
      | none => enter (d.put (place ++ [segment]) .directory) (place ++ [segment]) rest

/-- Writes a file, unless a directory has its place, and says whether it did. -/
def write (d : Disk) (path contents : String) : Disk × Bool :=
  if maxPathSize < path.utf8ByteSize then (d, false)
  else
    let segments := segmentsOf path
    match d.enter [] segments.dropLast with
    | (d, none) => (d, false)
    | (d, some place) =>
      let name := segments.getLast?.getD ""
      let file := place ++ [name]
      if !isDiskName name || d.get? file == some .directory then (d, false)
      else (d.put file (.file contents), true)

/-- Writes every unit to its path below a directory. What is refused is refused
for the given reason. -/
def sink (root reason : String) : Sink Disk where
  persist path contents d :=
    match d.write (root ++ "/" ++ path) contents with
    | (d, true) => (.ok (), d)
    | (d, false) => (.error reason, d)

/-- The files below a directory, by their path from there. -/
def filesBelow (d : Disk) (root : String) : FileMap :=
  .ofList <| d.entries.filterMap fun (place, entry) =>
    match entry, place with
    | .file text, top :: rest => if top = root then some (String.intercalate "/" rest, text) else none
    | _, _ => none

end Disk
end QueryShapes
