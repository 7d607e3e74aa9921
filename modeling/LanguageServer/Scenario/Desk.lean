import LanguageServer.Editor.Dispatch
import LanguageServer.Scenario.Stage

/-! A desk: a session with an editor that answers what it is asked, and a stage for the processes
that the session launches. -/
namespace LanguageServer.Scenario

open Editor (Session Message)

structure Desk where
  session : Session
  stage : Stage
  /-- What the editor answers when it is asked for its settings. -/
  settings : Json
  /-- Whether the editor refuses to register anything. -/
  refusesRegistration : Bool
  /-- The messages that came and that nobody has taken. -/
  heard : List Message

namespace Desk

def new (session : Session) (settings : Json) (refusesRegistration : Bool) : Desk :=
  ⟨session, .new session.server [] [], settings, refusesRegistration, []⟩

def sessionLens : Lens Desk Session := ⟨(·.session), fun s d => { d with session := s }⟩

/-- The stage plays for the server of the session. -/
def stageLens : Lens Desk Stage where
  get d := { d.stage with server := d.session.server }
  set g d := { d with stage := g, session := { d.session with server := g.server } }

/-- What the editor answers; nothing for a refusal. -/
def reply (d : Desk) (method : String) : Option Json :=
  match method with
  | "workspace/configuration" => some (.array [d.settings])
  | "client/registerCapability" => if d.refusesRegistration then none else some .null
  | _ => some .null

/-- Takes in a message, and answers it if an answer is wanted. -/
def hear (m : Message) (d : Desk) : Desk :=
  let answers := match m.number with
    | some n => d.session.answers.insert n (d.reply m.method)
    | none => d.session.answers
  { d with heard := d.heard ++ [m], session := { d.session with answers } }

/-- Plays the editor. -/
def attendEditor : Task Desk Unit := Task.repeatFrom () fun _ => do
  let m ← Task.await fun (d : Desk) => match d.session.outbox with
    | [] => none
    | m :: rest => some (m, { d with session := { d.session with outbox := rest } })
  Task.modify (hear m)
  return (.inl () : Unit ⊕ Unit)

/-- Takes the earliest message of a method that was not taken. -/
def take (method : String) (d : Desk) : Option (Message × Desk) :=
  (d.heard.find? fun m => m.method = method).map fun m =>
    (m, { d with heard := d.heard.eraseP fun m => m.method = method })

/-- What waiting for a message comes to. -/
inductive Expected where
  | message (m : Message)
  | nothing
  /-- The server has exited, so that no message can come. -/
  | silence

/-- Waits for a message of a method. -/
def expect (method : String) (within : Duration) : Task Desk Expected := do
  let found ← Task.awaitFor within fun d =>
    match take method d with
    | some (m, d) => some (.message m, d)
    | none => if d.session.phase = .exited then some (.silence, d) else none
  return found.getD .nothing

/-- The transcript of a script at a desk; the first fault ends it. -/
def play (d : Desk) (script : List (Step Desk Json)) : Transcript Desk :=
  Transcript.ofTask d do
    let _ ← Task.fork ((Stage.attend.zoom stageLens).zoom Transcript.stateLens)
    let _ ← Task.fork (attendEditor.zoom Transcript.stateLens)
    Transcript.follow false none script

end Desk
end LanguageServer.Scenario
