import LanguageServer.Scenario.Rules
import LanguageServer.Scenario.Script
import LanguageServer.Server.Hierarchies

/-! A server on a stage: an analysis process that follows rules, the requests it has seen, and steps
that run in the background. -/
namespace LanguageServer.Scenario

open Analyzer

/-- The limits of hierarchies, and the files of the workspace that they know. -/
structure Hierarchies where
  limits : HierarchyLimits
  workspace : Option (List Url)

/-- Steps in the background by name, each with the number under which its answer is kept. -/
structure Background where
  named : Table String (TaskId × Nat)
  answers : Table Nat Json
  next : Nat

structure Stage where
  server : Server
  rules : List Rule
  /-- Lines that a scripted process writes at once. -/
  banner : List String
  /-- The requests seen since they were last asked for. -/
  requests : List Request
  /-- Hierarchies with limits of their own, which take the place of those of the server. -/
  hierarchies : Option Hierarchies
  background : Background
  /-- How many analyses were begun on demand of a step. -/
  computed : Nat

namespace Stage

def new (server : Server) (rules : List Rule) (banner : List String) : Stage :=
  ⟨server, rules, banner, [], none, ⟨.empty, .empty, 0⟩, 0⟩

def serverLens : Lens Stage Server := ⟨(·.server), fun s g => { g with server := s }⟩

abbrev Step := Task Stage

def onServer {α : Type} (job : Server.Job α) : Step α := job.zoom serverLens

def link (g : Stage) (id : ChannelId) : Link := (g.server.client.channel id).link

def clientLens : Lens Stage Client := serverLens.andThen Server.clientLens

def updateLink (id : ChannelId) (f : Link → Link) : Stage → Stage :=
  clientLens.modify (Client.updateChannel id fun c => { c with link := f c.link })

/-- The next request to a process; none once it has ended. -/
def nextRequest (id : ChannelId) : Step (Option Request) := do
  let line ← Task.await fun (g : Stage) =>
    let l := g.link id
    match l.take with
    | some (line, rest) => some (some line, g.updateLink id fun _ => rest)
    | none => if l.isDeaf then some (none, g) else none
  return line.bind fun t => (Json.parse? t).bind Request.ofJson?

def note (q : Request) (g : Stage) : Stage := { g with requests := g.requests ++ [q] }

/-- How often each method was asked for, among the requests taken note of. -/
def counts (g : Stage) : Table String Nat :=
  g.requests.foldl (fun t q => t.insert q.method ((t.find? q.method).getD 0 + 1)) .empty

def reply (id : ChannelId) (environment : List (String × String)) (q : Request) (r : Rule) :
    Step Unit := do
  Task.sleep r.delay
  Task.modify (updateLink id fun l =>
    let l := l.say (r.reply.written environment q)
    match r.exit with
    | some code => l.close code
    | none => l)

/-- Plays a scripted process: requests are read as they come and answered beside each other. -/
def playScript (id : ChannelId) : Step Unit := do
  Task.modify fun g => g.updateLink id (·.say (Reply.written [] default (.lines g.banner)))
  Task.repeatFrom () fun _ => do
    match ← nextRequest id with
    | none => return .inr ()
    | some q =>
      let r ← Task.update fun (g : Stage) =>
        let (r, rules) := Rule.choose q g.rules
        (r, ({ g with rules } : Stage).note q)
      if r.isDeaf then Task.modify (updateLink id Link.deafen)
      let _ ← Task.fork (reply id [] q r)
      return (.inl () : Unit ⊕ Unit)

/-- The rules in the file that a program is given. -/
def rulesIn (g : Stage) (script : Option Path) : List Rule :=
  match (script.bind g.server.around.files.text?).bind Json.parse? with
  | some j => (((j.canonical.member? "rules").bind Json.array?).getD []).map Rule.ofJson
  | none => []

/-- Plays the process of a program: it answers one request after the other. -/
def playProgram (id : ChannelId) (l : Launch) : Step Unit := do
  let rules ← Task.read (·.rulesIn l.script)
  Task.repeatFrom rules fun rules => do
    match ← nextRequest id with
    | none =>
      Task.modify (updateLink id (·.close (some 0)))
      return .inr ()
    | some q =>
      let (r, rules) := Rule.choose q rules
      reply id l.environment q r.ofProgram
      return .inl rules

/-- Plays every process that is launched. -/
def attend : Step Unit := Task.repeatFrom () fun _ => do
  let (id, l) ← Task.await fun (g : Stage) =>
    match g.server.around.unattended with
    | [] => none
    | p :: rest =>
      let around := { g.server.around with unattended := rest }
      some (p, { g with server := { g.server with around } })
  let _ ← Task.fork (if l.runtime.isSome then playProgram id l else playScript id)
  return (.inl () : Unit ⊕ Unit)

/-! Steps in the background. -/

def updateBackground (f : Background → Background) (g : Stage) : Stage :=
  { g with background := f g.background }

/-- Begins a step under a name. -/
def begin (name : String) (step : Step Json) : Step Unit := do
  let n ← Task.update fun (g : Stage) =>
    (g.background.next, g.updateBackground fun b => { b with next := b.next + 1 })
  let id ← Task.fork (do
    let a ← step
    Task.modify (updateBackground fun b => { b with answers := b.answers.insert n a }))
  Task.modify (updateBackground fun b => { b with named := b.named.insert name (id, n) })

/-- Gives up a name. -/
def forget (name : String) : Step (Option (TaskId × Nat)) := Task.update fun (g : Stage) =>
  (g.background.named.find? name, g.updateBackground fun b => { b with named := b.named.erase name })

/-- Waits for the answer of a step; its name is free again. -/
def join (name : String) : Step (Option Json) := do
  match ← forget name with
  | none => return none
  | some (_, n) => return some (← Task.await fun (g : Stage) => (g.background.answers.find? n).map (·, g))

def drop (name : String) : Step Unit := do
  match ← forget name with
  | none => pure ()
  | some (id, _) => Task.abort id

def isDone? (name : String) (g : Stage) : Option Bool :=
  (g.background.named.find? name).map fun (_, n) => g.background.answers.contains n

/-- Runs steps beside each other and waits for all. -/
def together (steps : List (Step Json)) : Step (List Json) := do
  let first ← Task.read (·.background.next)
  Task.forEach steps fun step => do
    let n ← Task.update fun (g : Stage) =>
      (g.background.next, g.updateBackground fun b => { b with next := b.next + 1 })
    let _ ← Task.fork (do
      let a ← step
      Task.modify (updateBackground fun b => { b with answers := b.answers.insert n a }))
  let numbers := (List.range steps.length).map (first + ·)
  Task.await fun (g : Stage) => (numbers.mapM g.background.answers.find?).map (·, g)

/-- The transcript of a script on a stage where every process is played. -/
def play (tolerant : Bool) (g : Stage) (script : List (Scenario.Step Stage Json)) : Transcript Stage :=
  Transcript.ofTask g do
    let _ ← Task.fork (attend.zoom Transcript.stateLens)
    Transcript.follow tolerant (some Transcript.usualPace) script

end Stage
end LanguageServer.Scenario
