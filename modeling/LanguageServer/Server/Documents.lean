import LanguageServer.Server.Imports
import LanguageServer.Server.Workspace

/-! What the editor asks about documents. A document that is neither open nor a readable file has
no answer. -/
namespace LanguageServer.Server

/-- What follows every edit: the analysis store learns which text is shown, and nothing derived from
the document counts any more. -/
def shows (f : Fingerprint) (s : Server) : Server :=
  { s with analyses := s.analyses.track f, graph := s.graph.invalidate f.url }

def openDocument (u : Url) (version : Int) (text : String) (s : Server) : Fingerprint × Server :=
  let (f, documents) := s.documents.put u version text
  (f, { s with documents }.shows f)

def changeDocument (u : Url) (version : Int) (edits : List Edit) (s : Server) :
    Option Fingerprint × Server :=
  match s.documents.change u version edits with
  | (some f, documents) => (some f, { s with documents }.shows f)
  | (none, _) => (none, s)

/-- A saved document has the same text, but others may import it now. -/
def saveDocument (u : Url) (s : Server) : Server := { s with graph := s.graph.invalidate u }

def closeDocument (u : Url) (s : Server) : Server :=
  { s with
    documents := (s.documents.close u).2
    analyses := s.analyses.forget u
    graph := s.graph.invalidate u }

/-- A file was changed by others. -/
def fileChanged (u : Url) (s : Server) : Server :=
  let analyses := s.analyses.forget u
  let analyses := match s.documents.fingerprint? u with
    | some f => analyses.track f
    | none => analyses
  let workspace := match u.toFilePath? with
    | some path => (s.workspace.roots.filter path.startsWith).foldl (fun w r => w.invalidate r) s.workspace
    | none => s.workspace
  { s with analyses, workspace, graph := s.graph.invalidate u }

/-- What a start that may be refused comes to: running already, refused, or to be tried. -/
inductive StartPlan where
  | running
  | refused (f : Failure)
  | tried

/-- Drops the restarts that have left the window. -/
def recentRestarts (now : Instant) (window : Duration) (restarts : List Instant) : List Instant :=
  restarts.dropWhile fun t => window ≤ now.since t

/-- Decides on a start. A start that failed is remembered for the length of the window, and a process
that crashed too often within the window is not started again. -/
def planStart (now : Instant) (s : Server) : StartPlan × Server :=
  let window := s.configuration.restartWindow
  let status := s.client.status
  if status.isRunning then (.running, s)
  else if status = .stopped ∧ s.isShutDown then (.refused .terminated, s)
  else
    -- the failure of an earlier start stands for this one too
    match s.starts.failed.filter fun f => now.since f.1 < window with
    | some (_, f) => (.refused f, s)
    | none =>
      let s := { s with starts := { s.starts with failed := none } }
      if status = .crashed then
        let recent := recentRestarts now window s.starts.restarts
        if s.configuration.maxRestarts ≤ recent.length then
          (.refused (.unavailable ("analysis process crashed " ++ toString recent.length ++
            " times within " ++ window.text)),
            { s with starts := { s.starts with restarts := recent } })
        else (.tried, { s with starts := { s.starts with restarts := recent ++ [now] } })
      else (.tried, s)

/-- Keeps others from looking after a start meanwhile. -/
def startingUp {α : Type} (body : Job α) : Job α :=
  Task.exclusive (·.starts.isHeld) (fun b s => { s with starts := { s.starts with isHeld := b } }) body

/-- Starts the process if it is needed and may be started. -/
def ensureStarted : Job (Except Failure Unit) := do
  if ← Task.read (·.client.status.isRunning) then return .ok ()
  startingUp do
    let now ← Task.act (fun now s => (s.time now, s)) .done
    match ← Task.update (planStart now) with
    | .running => return .ok ()
    | .refused f => return .error f
    | .tried =>
      match ← start with
      | .error (.unavailable reason) =>
        Task.modify fun s =>
          { s with starts := { s.starts with failed := some (now, .unavailable reason) } }
        return .error (.unavailable reason)
      | outcome => return outcome

/-- Stops the process for good. -/
def shutDown : Job Unit := do
  if ← Task.update fun s => (s.isShutDown, { s with isShutDown := true }) then return
  stop

/-- Answers a question about the text of a document that needs the process. -/
def withDocument {α : Type} (u : Url) (answer : Snapshot → Job (Except Failure α)) :
    Job (Except Failure (Option α)) := do
  match ← document? u with
  | none => return .ok none
  | some snapshot =>
    match ← ensureStarted with
    | .error f => return .error f
    | .ok () => return (← answer snapshot).map some

/-- The analysis of a document as it is now, for a way to compile a text under a file name. -/
def analyzeBy (compile : String → String → Job (Except Failure Analysis)) (u : Url) :
    Job (Except Failure (Option Analysis)) := do
  match ← document? u with
  | none => return .ok none
  | some snapshot =>
    match ← Task.read (·.analyses.get? snapshot.fingerprint) with
    | some a => return .ok (some a)
    | none =>
      match ← ensureStarted with
      | .error f => return .error f
      | .ok () =>
        return (← AnalysisStore.getOrCompute analysesLens snapshot.fingerprint
          (compile snapshot.text (filename u))).map some

/-- The analysis of a document by the process. -/
def analyze (u : Url) : Job (Except Failure (Option Analysis)) := analyzeBy compile u

def imports (u : Url) (q : Questions := process) : Job (Except Failure (Option ImportSet)) :=
  withDocument u fun s => importsOf u s.text q

/-- The symbols that a document sees; the configuration says how far if nobody else does. -/
def waterfall (u : Url) (depth : Option Nat) (q : Questions := process) :
    Job (Except Failure (Option Waterfall)) :=
  withDocument u fun s => do
    let configured ← Task.read (·.configuration.waterfallDepth)
    waterfallOf u s.text (depth.getD configured) q

def cycle (u : Url) (q : Questions := process) : Job (Except Failure (Option CycleVerdict)) :=
  withDocument u fun s => cycleOf u s.text q

def introspect (u : Url) : Job (Except Failure (Option Introspection)) :=
  withDocument u fun s => introspectSource s.text (filename u)

/-- An entry of the index of the standard library; a blank path has none. -/
def stdlib (path : String) : Job (Except Failure (Option StdlibSymbol)) := do
  if Text.trim path = "" then return .ok none
  match ← ensureStarted with
  | .error f => return .error f
  | .ok () => stdlibSymbol path

end LanguageServer.Server
