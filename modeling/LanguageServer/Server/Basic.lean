import LanguageServer.Analysis.Store
import LanguageServer.Analyzer.Client
import LanguageServer.Analyzer.Launcher
import LanguageServer.Hierarchy.Knowledge
import LanguageServer.Import.Graph
import LanguageServer.Timed.Catalog
import LanguageServer.Workspace

/-! The state of one language server: its documents, what it knows of them, its analysis process,
and the part of the system that it sees. -/
namespace LanguageServer

/-- What the server sees of the system around it. -/
structure Surroundings where
  files : FileTree
  environment : List (String × String)
  launcher : Analyzer.Launcher
  /-- The processes launched that nobody has begun to play, by their channels. -/
  unattended : List (Analyzer.ChannelId × Analyzer.Launch)
  launches : Nat
  /-- A clock moved by hand for all that expires; without it the clock of the machine counts. -/
  clock : Option Instant

/-- Recent restarts after crashes, and the last start that failed. -/
structure StartHistory where
  restarts : List Instant
  failed : Option (Instant × Failure)
  /-- Someone looks after a start. -/
  isHeld : Bool
  deriving Inhabited

structure Server where
  around : Surroundings
  configuration : Configuration
  client : Analyzer.Client
  documents : DocumentStore
  analyses : AnalysisStore
  graph : ImportGraph
  workspace : Workspace
  /-- The files of the workspace as someone else lists them, if that is to count. -/
  otherListing : Option (Option (List Url))
  catalogs : Timed.Catalogs
  starts : StartHistory
  /-- Stopped for good. -/
  isShutDown : Bool

namespace Server

/-- A server before its first request. -/
def new (around : Surroundings) (c : Configuration) : Server where
  around := around
  configuration := c
  client := .new
  documents := .empty
  analyses := .empty
  graph := .empty c.importLifetime c.waterfallLifetime c.cycleLifetime
  workspace := .empty c.listingLifetime
  otherListing := none
  catalogs := .empty c.catalogLifetime
  starts := ⟨[], none, false⟩
  isShutDown := false

/-- The time by which things expire. -/
def time (now : Instant) (s : Server) : Instant := s.around.clock.getD now

def clientLens : Lens Server Analyzer.Client := ⟨(·.client), fun c s => { s with client := c }⟩
def analysesLens : Lens Server AnalysisStore := ⟨(·.analyses), fun a s => { s with analyses := a }⟩
def graphLens : Lens Server ImportGraph := ⟨(·.graph), fun g s => { s with graph := g }⟩

abbrev Job := Task Server

/-- Changes a part of the server by the clock that things expire by. -/
def timed {α τ : Type} (l : Lens Server τ) (f : Instant → τ → α × τ) : Job α :=
  .act (fun now s => l.lift (f (s.time now)) s) .done

def limits (s : Server) : HierarchyLimits :=
  ⟨s.configuration.hierarchyDepth, s.configuration.hierarchyItems⟩

/-- How a document is called in requests: by its path if it is a file. -/
def filename (u : Url) : String := ((u.toFilePath?).map Path.text).getD u.text

/-- The text of a document. Two visits to the file system lie on the way to a file. -/
def document? (u : Url) : Job (Option Snapshot) := do
  match ← Task.read (·.documents.snapshot? u) with
  | some s => return some s
  | none =>
    match u.toFilePath? with
    | none => return none
    | some path =>
      Task.giveWay
      match ← Task.read fun s => DocumentStore.statOf? s.around.files u with
      | none => return none
      | some fingerprint =>
        Task.giveWay
        match ← Task.read fun s => s.around.files.text? path with
        | none => return none
        | some text => return some ⟨u, text, fingerprint⟩

end Server
end LanguageServer
