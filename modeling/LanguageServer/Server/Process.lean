import LanguageServer.Server.Basic

/-! Starting and stopping the analysis process, and requests to it. -/
namespace LanguageServer.Server

open Analyzer

/-- How long the end of a process is waited for. -/
def reapLimit : Duration := .ofMillis 500

def onClient (f : Client → Client) : Job Unit := Task.modify (clientLens.modify f)

/-- Keeps others from waiting for the end of a process meanwhile. -/
def reaping {α : Type} (id : ChannelId) (body : Job α) : Job α :=
  Task.exclusive (fun s => (s.client.channel id).isReaping)
    (fun b => clientLens.modify (Client.updateChannel id fun c => { c with isReaping := b })) body

/-- Ends the process of a channel. Others go on while it waits for its turn; the moment that a killed process
takes to end is part of this wait. -/
def kill (id : ChannelId) : Job Unit := reaping id do
  onClient (Client.updateChannel id fun c =>
    { c with hasChild := false, link := if c.hasChild then c.link.close none else c.link })

/-- Waits for a process that has closed its output to end, for its exit code. -/
def reap (id : ChannelId) : Job (Option Int) := reaping id do
  if ← Task.read fun s => (s.client.channel id).hasChild then
    match ← Task.awaitFor reapLimit fun s => (s.client.channel id).link.exit.map fun code => (code, s) with
    | some code =>
      onClient (Client.updateChannel id fun c => { c with hasChild := false })
      return code
    | none => return none
  else return none

/-- Reads from a process until it is gone. -/
def listen (id : ChannelId) : Job Unit := do
  Task.repeatFrom () fun _ => do
    match ← Task.await fun s => (s.client.fromChannel id fun c =>
        c.link.listen.map fun (heard, link) => (heard, { c with link })).map fun (heard, client) =>
          (heard, { s with client }) with
    | .line text =>
      onClient (Client.updateChannel id (·.accept text))
      return (.inl () : Unit ⊕ Unit)
    | .ended => return .inr ()
  if ← Task.read fun s => (s.client.channel id).isClosing then
    onClient (Client.updateChannel id (·.failAll .terminated))
  else
    let code ← reap id
    onClient (·.disconnect id code)

/-- Sends a request through a channel and waits for the answer. -/
def send (id : ChannelId) (op : Operation) (params : Json) (limit : Duration) :
    Job (Except Failure Json) := do
  match ← Task.update (clientLens.lift fun c => c.post id op params) with
  | .error f => return .error f
  | .ok n =>
    match ← Task.awaitFor limit (fun s => (s.client.fromChannel id (·.collect n)).map
        fun (o, client) => (o, { s with client })) with
    | some o => return o
    | none =>
      onClient (Client.updateChannel id (·.withdraw n))
      return .error (.timedOut op.method limit)

def dropReader : Job Unit := do
  match ← Task.update fun s => (s.client.reader, { s with client := { s.client with reader := none } }) with
  | some task => Task.abort task
  | none => pure ()

/-- Takes the current channel away. -/
def takeCurrent : Job (Option ChannelId) :=
  Task.update (clientLens.lift fun c => (c.current, { c with current := none }))

/-- Keeps others from starting and stopping the process meanwhile. -/
def changing {α : Type} (body : Job α) : Job α :=
  Task.exclusive (·.client.isChanging)
    (fun b => clientLens.modify fun c => { c with isChanging := b }) body

/-- Launches a process; its channel becomes the current one. -/
def launch : Job (Except Failure ChannelId) := Task.update fun s =>
  match s.around.launcher.launch s.around.files s.around.environment with
  | .error f => (.error f, s)
  | .ok l =>
    let n := s.around.launches + 1
    let scripted := l.runtime.isNone
    let pid : UInt32 := (40000 + n).toUInt32
    let (id, client) := s.client.connect (.connect .fresh (some pid) !scripted)
    (.ok id, { s with
      client
      around := { s.around with launches := n, unattended := s.around.unattended ++ [(id, l)] } })

/-- The failure of a start that came to nothing. -/
def unavailable : Failure → Failure
  | .unavailable reason => .unavailable reason
  | f => .unavailable f.message

/-- Starts the process and waits until it answers; does nothing while one is running. -/
def start : Job (Except Failure Unit) := changing do
  if ← Task.read fun s => decide (s.client.phase = .running) then return .ok ()
  onClient fun c => { c with phase := .starting }
  dropReader
  -- what is left of an earlier process is ended first
  match ← takeCurrent with
  | some old =>
    onClient (Client.abandon old)
    kill old
  | none => pure ()
  match ← launch with
  | .error f =>
    onClient fun c => { c with phase := .notStarted }
    return .error (unavailable f)
  | .ok id =>
    let reader ← Task.fork (listen id)
    onClient fun c => { c with reader := some reader }
    let limit ← Task.read (·.configuration.startupLimit)
    -- the process is up once it has answered
    match ← send id .health (.object []) limit with
    | .ok _ =>
      onClient fun c =>
        ({ c with active := some id, phase := .running } : Client).emit (.started (c.channel id).pid)
      return .ok ()
    | .error f =>
      onClient fun c => (c.abandon id).updateChannel id (·.failAll .terminated)
      kill id
      dropReader
      onClient fun c => { c with current := none, phase := .notStarted }
      return .error (.unavailable ("no health response: " ++ f.message))

/-- Ends the process. What still waits for an answer fails. -/
def stop : Job Unit := changing do
  onClient fun c => { c with active := none }
  let current ← takeCurrent
  match current with
  | some id =>
    onClient fun c => (c.abandon id).updateChannel id (·.failAll .terminated)
    kill id
  | none => pure ()
  dropReader
  onClient fun c =>
    let event := current.isSome && c.phase ≠ .stopped
    let c := { c with phase := .stopped }
    if event then c.emit .stopped else c

def request {α : Type} (op : Operation) (params : Json) (read : Json → Option α) :
    Job (Except Failure α) := do
  match ← Task.read (·.client.target) with
  | .error f => return .error f
  | .ok id =>
    let limit ← Task.read (·.configuration.requestLimit)
    match ← send id op params limit with
    | .error f => return .error f
    | .ok j => match read j with
      | some a => return .ok a
      | none => return .error (.malformed ("unexpected " ++ op.method ++ " result"))

def health : Job (Except Failure Health) := request .health (.object []) Health.ofJson?

/-- Symbols without type checking. -/
def parse (source filename : String) : Job (Except Failure (List Symbol)) :=
  request .parse (sourceParams source filename) fun j =>
    (listUnder? "symbols" Symbol.ofJson? j).map Symbol.normalizeAll

def compile (source filename : String) : Job (Except Failure Analysis) :=
  request .compile (sourceParams source filename) fun j => (Analysis.ofJson? j).map Analysis.normalize

def introspectSource (source filename : String) : Job (Except Failure Introspection) :=
  request .introspect (sourceParams source filename) Introspection.ofJson?

def extractImports (source filename : String) : Job (Except Failure (List ImportEdge)) :=
  request .extractImports (sourceParams source filename) (listUnder? "imports" ImportEdge.ofJson?)

def resolveImport (kind : ImportKind) (target : String) (current : Path) :
    Job (Except Failure (Option Path)) :=
  request .resolveImport (resolveParams kind target current) (optionUnder? "resolved_path" Path.ofJson?)

def checkCircular (source filename : String) : Job (Except Failure CycleVerdict) :=
  request .checkCircular (sourceParams source filename) CycleVerdict.ofJson?

/-- The symbols that the process itself finds through imports. -/
def waterfallSymbols (source filename : String) (depth : Nat) : Job (Except Failure Waterfall) :=
  request .waterfallSymbols (waterfallParams source filename depth) fun j =>
    (listUnder? "symbols" WaterfallSymbol.ofJson? j).map fun symbols =>
      ⟨Hash.ofText source, depth, symbols⟩

def stdlibSymbol (path : String) : Job (Except Failure (Option StdlibSymbol)) :=
  request .resolveStdlibSymbol (stdlibParams path) (optionUnder? "symbol" StdlibSymbol.ofJson?)

end LanguageServer.Server
