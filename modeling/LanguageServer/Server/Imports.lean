import LanguageServer.Import.CycleWalk
import LanguageServer.Import.WaterfallWalk
import LanguageServer.Server.Process

/-! Imports of documents, cycles among them, and the symbols seen through them. -/
namespace LanguageServer.Server

def importFlights : Lens Server (FlightTable (Url × UInt64) ImportSet) :=
  graphLens.andThen ⟨(·.importFlights), fun f g => { g with importFlights := f }⟩

def waterfallFlights : Lens Server (FlightTable (Url × Nat × UInt64) Waterfall) :=
  graphLens.andThen ⟨(·.waterfallFlights), fun f g => { g with waterfallFlights := f }⟩

def cycleFlights : Lens Server (FlightTable (Url × UInt64) CycleVerdict) :=
  graphLens.andThen ⟨(·.cycleFlights), fun f g => { g with cycleFlights := f }⟩

/-- What is asked about texts, each with the name of its file: what it imports, and the symbols at
its top. -/
structure Questions where
  imports : String → String → Job (Except Failure (List ImportEdge))
  symbols : String → String → Job (Except Failure (List Symbol))

/-- The questions as the analysis process answers them. -/
def process : Questions := ⟨extractImports, parse⟩

/-- Looks for the file of an import that the process has not found. -/
def locateEdge (s : Server) (u : Url) (e : ImportEdge) : ImportEdge :=
  match e.resolved with
  | some _ => e
  | none => { e with resolved := u.toFilePath?.bind fun current =>
      s.configuration.prober.resolve s.around.files e.kind e.target current }

/-- Asks the process for the imports of a text; whoever asks for the same meanwhile joins. -/
def askImports (u : Url) (text : String) (q : Questions := process) :
    Job (Except Failure ImportSet) := do
  let hash := Hash.ofText text
  let ticket ← FlightTable.join importFlights (u, hash) (fun _ => none) (fun s => ((), s)) fun _ => do
    match ← q.imports text (filename u) with
    | .error f => return .error f
    | .ok edges =>
      let edges ← Task.read fun s => edges.map (s.locateEdge u)
      return .ok ⟨hash, edges⟩
  FlightTable.await importFlights ticket

/-- Notes that a file is about to be read. -/
def record (u : Url) (r : ReadSet) : Job ReadSet := Task.read (·.graph.record u r)

/-- The imports of a document, which are kept for it. -/
def importsOf (u : Url) (text : String) (q : Questions := process) :
    Job (Except Failure ImportSet) := do
  match ← timed graphLens (ImportGraph.importsOf · u (Hash.ofText text)) with
  | some set => return .ok set
  | none =>
    let reads ← record u (← Task.read (·.graph.startReads))
    match ← askImports u text q with
    | .error f => return .error f
    | .ok set =>
      timed graphLens fun now g => ((), g.storeImports now u set reads)
      return .ok set

/-- The imports of a file that a walk has come to: what is held is taken, but nothing is kept. -/
def importsOnTheWay (u : Url) (text : String) (q : Questions := process) :
    Job (Except Failure ImportSet) := do
  match ← timed graphLens (ImportGraph.importsOf · u (Hash.ofText text)) with
  | some set => return .ok set
  | none => askImports u text q

/-- The symbols at the top of a document: those of its analysis if there is one, else what the
process parses. -/
def topSymbols (s : Snapshot) (q : Questions := process) : Job (Except Failure (List Symbol)) := do
  match ← Task.read (·.analyses.get? s.fingerprint) with
  | some a => return .ok a.symbols
  | none =>
    match ← q.symbols s.text (filename s.url) with
    | .ok symbols => return .ok symbols
    | .error f => return if f.needsRestart then .error f else .ok []

/-- Walks the imports of a document for the symbols seen from it. -/
def walkWaterfall (root : Url) (text : String) (depth : Nat) (q : Questions := process) :
    Job (Except Failure (List WaterfallSymbol × ReadSet)) := do
  let reads ← record root (← Task.read (·.graph.startReads))
  Task.repeatFrom (WaterfallWalk.start root text depth, reads) fun (walk, reads) => do
    match walk.next with
    | .finished found => return .inr (.ok (found, reads))
    | .expand source walk =>
      let imports ← if source.file = root then importsOf source.file source.text q
        else importsOnTheWay source.file source.text q
      match imports with
      | .ok set => return .inl (walk.follow source set.edges, reads)
      | .error f =>
        -- only the root has to tell its imports, as long as the process itself is well
        return if source.file = root ∨ f.needsRestart then .inr (.error f) else .inl (walk, reads)
    | .visit file via walk =>
      let reads ← record file reads
      match ← document? file with
      | none => return .inl (walk, reads)
      | some snapshot =>
        match ← topSymbols snapshot q with
        | .error f => return .inr (.error f)
        | .ok symbols => return .inl (walk.enter file via snapshot.text symbols, reads)

/-- The symbols that a document sees through imports up to a depth. -/
def waterfallOf (u : Url) (text : String) (depth : Nat) (q : Questions := process) :
    Job (Except Failure Waterfall) := do
  let hash := Hash.ofText text
  match ← timed graphLens (ImportGraph.waterfallOf · u depth hash) with
  | some w => return .ok w
  | none =>
    let ticket ← FlightTable.join waterfallFlights (u, depth, hash) (fun _ => none)
      (fun s => ((), s)) fun _ => do
        match ← walkWaterfall u text depth q with
        | .error f => return .error f
        | .ok (symbols, reads) =>
          let w : Waterfall := ⟨hash, depth, symbols⟩
          timed graphLens fun now g => ((), g.storeWaterfall now u depth hash w reads)
          return .ok w
    FlightTable.await waterfallFlights ticket

/-- Walks the imports of a document for a cycle. -/
def walkCycle (root : Url) (text : String) (q : Questions := process) :
    Job (Except Failure (CycleVerdict × ReadSet)) := do
  let reads ← record root (← Task.read (·.graph.startReads))
  match ← importsOf root text q with
  | .error f => return .error f
  | .ok set =>
    Task.repeatFrom (CycleWalk.start root set.urls, reads) fun (walk, reads) => do
      match walk.next with
      | .verdict v => return .inr (.ok (v, reads))
      | .visit file walk =>
        let reads ← record file reads
        match ← document? file with
        | none => return .inl (walk.enter file none, reads)
        | some snapshot =>
          match ← importsOnTheWay file snapshot.text q with
          | .ok set => return .inl (walk.enter file (some set.urls), reads)
          | .error f =>
            return if f.needsRestart then .inr (.error f) else .inl (walk.enter file (some []), reads)

/-- Whether the imports of a document lead back to a file on the way. -/
def cycleOf (u : Url) (text : String) (q : Questions := process) :
    Job (Except Failure CycleVerdict) := do
  let hash := Hash.ofText text
  match ← timed graphLens (ImportGraph.cycleOf · u hash) with
  | some v => return .ok v
  | none =>
    let ticket ← FlightTable.join cycleFlights (u, hash) (fun _ => none) (fun s => ((), s)) fun _ => do
      match ← walkCycle u text q with
      | .error f => return .error f
      | .ok (v, reads) =>
        timed graphLens fun now g => ((), g.storeCycle now u hash v reads)
        return .ok v
    FlightTable.await cycleFlights ticket

/-- The imports held for a document, whatever text they come from. -/
def heldImports (u : Url) : Job (Option ImportSet) := timed graphLens fun now g =>
  let (s, imports) := g.imports.get now u
  (s, { g with imports })

/-- The file that an import target means in a document. -/
def resolveTarget (s : Server) (kind : ImportKind) (target : String) (u : Url) : Option Path :=
  u.toFilePath?.bind (s.configuration.prober.resolve s.around.files kind target)

/-- The file that an import target means to the process; what the process does not find is looked
for here. -/
def resolveByProcess (kind : ImportKind) (target : String) (u : Url) : Job (Option Path) := do
  match u.toFilePath? with
  | none => return none
  | some path =>
    match ← resolveImport kind target path with
    | .ok (some found) => return some found
    | _ => Task.read fun s => s.resolveTarget kind target u

end LanguageServer.Server
