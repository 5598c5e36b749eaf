import Mathlib
import QueryShapes.Proofs.CastSymmetry
import QueryShapes.Proofs.CommonAncestors
import QueryShapes.Run

namespace QueryShapes

namespace Sink

variable {σ : Type} {sink : Sink σ}

/-- From one state to another the sink takes file after file. -/
inductive Takes (sink : Sink σ) : List (String × String) → σ → σ → Prop
  | nil {state} : Takes sink [] state state
  | cons {path contents rest state next last} : sink.persist path contents state = (.ok (), next) →
      Takes sink rest next last → Takes sink ((path, contents) :: rest) state last

/-- The calls that a sink gets for a list of files, its answer and the state that it is left in. -/
inductive Receives (sink : Sink σ) (files : List (String × String)) (state : σ) :
    List (String × String) → Except Refusal Unit → σ → Prop
  | all {last} : sink.Takes files state last → Receives sink files state files (.ok ()) last
  | refusal {before path contents after middle reason last} : files = before ++ (path, contents) :: after →
      sink.Takes before state middle → sink.persist path contents middle = (.error reason, last) →
      Receives sink files state (before ++ [(path, contents)]) (.error ⟨path, reason⟩) last

/-- A file that is taken comes before all that the rest makes of the sink. -/
theorem Receives.cons {path contents : String} {rest calls : List (String × String)} {state next last : σ}
    {answer : Except Refusal Unit} (taken : sink.persist path contents state = (.ok (), next))
    (received : sink.Receives rest next calls answer last) :
    sink.Receives ((path, contents) :: rest) state ((path, contents) :: calls) answer last := by
  cases received with
  | all takes => exact .all (.cons taken takes)
  | @refusal before path' contents' after _ reason _ parts takes refused =>
    have parts' : (path, contents) :: rest = ((path, contents) :: before) ++ (path', contents') :: after :=
      congrArg (List.cons _) parts
    have whole : sink.Receives ((path, contents) :: rest) state
        (((path, contents) :: before) ++ [(path', contents')])
        (.error ⟨path', reason⟩) last := .refusal parts' (.cons taken takes) refused
    exact whole

end Sink

namespace CastMatrix

end CastMatrix

namespace Scope

end Scope

namespace Config

variable {σ : Type}

end Config

namespace FullDisk

def snapshot : Snapshot :=
  ⟨[], []⟩

def config : Config :=
  Config.withoutRoot {}

/-- Room for one unit only. -/
def sink : Sink FileMap :=
  FileMap.sink.refusing indexUnit "disk full"

def generation : Generation :=
  Scope.emission ⟨⟨[]⟩, ⟨[]⟩, config, none⟩ (.ofImplicit []) [] []

theorem generate_eq : snapshot.generate config = .ok generation := by
  cbv

end FullDisk
end QueryShapes
