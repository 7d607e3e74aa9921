import LanguageServer.Scenario.Input
import LanguageServer.Task.Machine

/-! Scripts: steps that run one after the other on a shared state, and their answers. -/
namespace LanguageServer.Scenario

/-- A step of a script, which may find fault with the request that asked for it. -/
abbrev Step (σ : Type) := ExceptT Fault (Task σ)

instance {σ : Type} : MonadLift Read (Step σ) := ⟨fun r => ExceptT.mk (pure r)⟩

namespace Step

variable {σ α : Type}

def run (t : Task σ α) : Step σ α := ExceptT.lift t

def see (f : σ → α) : Step σ α := run (Task.read f)
def change (f : σ → σ) : Step σ Unit := run (Task.modify f)

/-- What a step comes to. -/
def settled (s : Step σ Json) : Task σ Json := Read.settle <$> ExceptT.run s

end Step

/-- The state of the steps, the answers so far from the last to the first, and the first fault. -/
structure Transcript (σ : Type) where
  state : σ
  answers : List Json
  fault : Option Fault

namespace Transcript

variable {σ : Type}

def stateLens : Lens (Transcript σ) σ := ⟨(·.state), fun s t => { t with state := s }⟩

/-- Runs steps in turn with a span of time after each; if a fault is no answer, the first one ends
the script. -/
def follow (tolerant : Bool) (pace : Option Duration) : List (Step σ Json) → Task (Transcript σ) Unit
  | [] => pure ()
  | step :: rest => do
    let answer ← (ExceptT.run step).zoom stateLens
    Task.modify fun t => { t with
      answers := Read.settle answer :: t.answers
      fault := t.fault.or (match answer with
        | .ok _ => none
        | .error f => some f) }
    match pace with
    | some span => Task.sleep span
    | none => pure ()
    if tolerant || (← Task.read (·.fault.isNone)) then follow tolerant pace rest else pure ()

/-- The time between two steps where nothing else is said. -/
def usualPace : Duration := .ofMillis 1

/-- More moves than any script makes. -/
def patience : Nat := Nat.pow 10 12

def ofTask (state : σ) (task : Task (Transcript σ) Unit) : Transcript σ :=
  (Machine.runTask patience (Machine.start ⟨state, [], none⟩) task).state

def ofScript (tolerant : Bool) (state : σ) (script : List (Step σ Json)) : Transcript σ :=
  ofTask state (follow tolerant (some usualPace) script)

end Transcript
end LanguageServer.Scenario
