import QueryShapes.Generation

namespace QueryShapes

/-- The numbers of a finished run. -/
structure RunSummary where
  units : Nat
  enums : Nat
  objects : Nat
  ambiguities : Nat
deriving DecidableEq, Repr

namespace Generation

/-- Hands the units to a sink. -/
def persist {σ : Type} (g : Generation) (sink : Sink σ) (state : σ) : Except GenerationError Nat × σ :=
  let (result, state) := g.tree.finalize sink state
  (result.mapError .refused, state)

end Generation

/-- Fetches the whole snapshot and generates from it. -/
def Source.generate (source : Source) (config : Config) : Except GenerationError Generation := do
  let snapshot ← source.snapshot.mapError .source
  snapshot.generate config

/-- Fetches, generates and persists. The sink is not touched before the
generation has succeeded as a whole. -/
def Config.run {σ : Type} (config : Config) (source : Source) (sink : Sink σ) (state : σ) :
    Except GenerationError RunSummary × σ :=
  match source.generate config with
  | .error e => (.error e, state)
  | .ok g =>
    match g.persist sink state with
    | (.ok units, state) => (.ok ⟨units, g.enums, g.objects, g.ambiguities.length⟩, state)
    | (.error e, state) => (.error e, state)

end QueryShapes
