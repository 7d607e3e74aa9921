import LanguageServer.Server.Documents

/-! A session with one editor: what was told to the editor, what it answered, and the server behind
the session, which takes the configuration that is known when it is first needed. -/
namespace LanguageServer.Editor

structure Message where
  method : String
  params : Json
  /-- The number that an answer is to carry, if one is wanted. -/
  number : Option Nat
  deriving Inhabited

inductive Phase where
  | uninitialized
  | initialized
  | shutDown
  | exited
  deriving DecidableEq, Inhabited

/-- The state of an open document: the editor's version, and a count of its edits. -/
structure Revision where
  version : Int
  edits : UInt64
  deriving DecidableEq, Inhabited

structure Session where
  server : Server
  /-- Whether the server has been needed. -/
  isServing : Bool
  phase : Phase
  configuration : Configuration
  roots : List Path
  revisions : Table Url Revision
  /-- Messages that the editor has not read. -/
  outbox : List Message
  /-- Answers of the editor by number, nothing for a refusal. -/
  answers : Table Nat (Option Json)
  next : Nat

/-- What happens in a session. -/
abbrev Action := Task Session

namespace Session

def new (around : Surroundings) (c : Configuration) : Session where
  server := .new around c
  isServing := false
  phase := .uninitialized
  configuration := c
  roots := []
  revisions := .empty
  outbox := []
  answers := .empty
  next := 0

def serverLens : Lens Session Server := ⟨(·.server), fun v s => { s with server := v }⟩

/-- The session with a server that serves: a new one takes the configuration of now. -/
def serving (s : Session) : Session :=
  if s.isServing then s
  else
    let around := { s.server.around with launcher := .ofConfiguration s.configuration }
    { s with server := .new around s.configuration, isServing := true }

/-- Counts an edit of a document. -/
def revise (u : Url) (version : Int) (s : Session) : Session :=
  let edits := ((s.revisions.find? u).map (·.edits)).getD 0
  { s with revisions := s.revisions.insert u ⟨version, edits + 1⟩ }

/-- Writes a message; nothing is told after the exit. -/
def post (m : Message) (s : Session) : Session :=
  if s.phase = .exited then s else { s with outbox := s.outbox ++ [m] }

end Session

def onServer {α : Type} (job : Server.Job α) : Action α := do
  Task.modify Session.serving
  job.zoom Session.serverLens

def tell (method : String) (params : Json) : Action Unit :=
  Task.modify (Session.post ⟨method, params, none⟩)

/-- Asks the editor and waits for its answer; nothing if it refuses. -/
def ask (method : String) (params : Json) : Action (Option Json) := do
  let n ← Task.update fun (s : Session) =>
    (s.next, Session.post ⟨method, params, some s.next⟩ { s with next := s.next + 1 })
  Task.await fun (s : Session) =>
    if s.phase = .exited then some (none, s)
    else (s.answers.find? n).map fun a => (a, { s with answers := s.answers.erase n })

end LanguageServer.Editor
