import QueryShapes.Output.Tree

namespace QueryShapes

/-- A store that takes files one by one. It may refuse a file, with a reason,
and may change even then. -/
structure Sink (σ : Type) where
  persist : (path contents : String) → σ → Except String Unit × σ

/-- The first file that a sink refused. -/
structure Refusal where
  path : String
  reason : String
deriving DecidableEq, Repr

namespace Sink

variable {σ : Type}

/-- Hands files over in order and stops at the first refusal. -/
def persistAll (sink : Sink σ) : List (String × String) → σ → Except Refusal Unit × σ
  | [], state => (.ok (), state)
  | (path, contents) :: rest, state =>
    match sink.persist path contents state with
    | (.ok (), state) => persistAll sink rest state
    | (.error reason, state) => (.error ⟨path, reason⟩, state)

/-- The sink that also refuses one path. -/
def refusing (sink : Sink σ) (refused reason : String) : Sink σ where
  persist path contents state :=
    if path = refused then (.error reason, state) else sink.persist path contents state

end Sink

/-- Texts by path, sorted by path. -/
structure FileMap where
  entries : List (String × String) := []
deriving DecidableEq, Repr

namespace FileMap

def insertSorted (path contents : String) : List (String × String) → List (String × String)
  | [] => [(path, contents)]
  | (p, text) :: rest =>
    if path < p then (path, contents) :: (p, text) :: rest
    else if path = p then (path, contents) :: rest
    else (p, text) :: insertSorted path contents rest

/-- The last text written to a path stays. -/
def insert (m : FileMap) (path contents : String) : FileMap :=
  ⟨insertSorted path contents m.entries⟩

def ofList (files : List (String × String)) : FileMap :=
  files.foldl (fun m (path, contents) => m.insert path contents) {}

/-- The sink that keeps every file in memory. -/
def sink : Sink FileMap where
  persist path contents m := (.ok (), m.insert path contents)

end FileMap

/-- Hands the finished units to a sink and counts them. -/
def OutputTree.finalize {σ : Type} (t : OutputTree) (sink : Sink σ) (state : σ) : Except Refusal Nat × σ :=
  match sink.persistAll t.files state with
  | (.ok (), state) => (.ok t.size, state)
  | (.error refusal, state) => (.error refusal, state)

end QueryShapes
