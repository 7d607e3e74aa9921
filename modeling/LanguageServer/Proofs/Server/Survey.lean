import LanguageServer.Proofs.Flight.Ledger
import LanguageServer.Proofs.Import.Epochs
import LanguageServer.Proofs.Import.Outcomes
import LanguageServer.Proofs.Server.Starting

/-! A server that is asked about the imports of documents while documents and files change: what
happens to it, what it is asked and answers, and how an answer comes of readings of files. -/
namespace LanguageServer

/-- What is asked about a document: what it imports, the symbols it sees up to a depth, whether its
imports lead back. -/
inductive What where
  | imports
  | waterfall (depth : Option Nat)
  | cycle

abbrev What.Value : What → Type
  | .imports => ImportSet
  | .waterfall _ => Waterfall
  | .cycle => CycleVerdict

/-- A question about a document, for a given text or for the one that the document has. -/
structure Query where
  file : Url
  text : Option String
  what : What

namespace Survey

/-- What editors tell, what becomes of files, and that all is to be read anew. -/
inductive Event where
  | told (e : Server.Event)
  | cleared

namespace Event

def apply : Event → Server → Server
  | .told e, s => e.apply s
  | .cleared, s => { s with graph := s.graph.clear }

/-- Whether nothing counts any more that was read of a file. -/
def Spoils (s : Server) (u : Url) : Event → Prop
  | .told e => e.Spoils s u
  | .cleared => True

instance (s : Server) (u : Url) : (e : Event) → Decidable (e.Spoils s u)
  | .told e => inferInstanceAs (Decidable (e.Spoils s u))
  | .cleared => inferInstanceAs (Decidable True)

end Event

/-- A server at some time, with the event that led to it if one did. -/
structure Moment where
  event : Option Event
  server : Server

/-- Nothing counts any more that was read of a file before this moment. -/
def Moment.Spoils (m : Moment) (u : Url) : Prop := ∃ e, m.event = some e ∧ e.Spoils m.server u

instance (m : Moment) (u : Url) : Decidable (m.Spoils u) :=
  match h : m.event with
  | none => isFalse fun ⟨_, he, _⟩ => by cases h.symm.trans he
  | some e => decidable_of_iff (e.Spoils m.server u) ⟨fun hu => ⟨e, h, hu⟩, fun ⟨_, he, hu⟩ =>
    Option.some.inj (h.symm.trans he) ▸ hu⟩

/-- What was handed over to a caller, and what had happened when the call was made. -/
structure Answer where
  asked : List Moment
  query : Query
  outcome : Except Failure (Option query.what.Value)

end Survey

/-- A server and what it has answered. -/
structure Survey where
  server : Server
  answers : List Survey.Answer

namespace Survey

def serverLens : Lens Survey Server := ⟨(·.server), fun s o => { o with server := s }⟩

def complement : serverLens.Complement (List Answer) where
  rest o := o.answers
  whole s answers := ⟨s, answers⟩
  whole_get _ := rfl
  get_whole _ _ := rfl
  rest_whole _ _ := rfl
  set_whole _ _ _ := rfl

section Asking

variable (q : Server.Questions)

/-- The answer to a question about a given text. -/
def askText (u : Url) (t : String) : (what : What) → Server.Job (Except Failure what.Value)
  | .imports => Server.importsOf u t q
  | .waterfall depth => do
    let configured ← Task.read (·.configuration.waterfallDepth)
    Server.waterfallOf u t (depth.getD configured) q
  | .cycle => Server.cycleOf u t q

/-- The answer to a question about a document. -/
def askDocument (u : Url) : (what : What) → Server.Job (Except Failure (Option what.Value))
  | .imports => Server.imports u q
  | .waterfall depth => Server.waterfall u depth q
  | .cycle => Server.cycle u q

def ask (x : Query) : Server.Job (Except Failure (Option x.what.Value)) :=
  match x.text with
  | some t => (askText q x.file t x.what).bind fun r => .done (r.map some)
  | none => askDocument q x.file x.what

/-- Asks a question and hands over the answer. -/
def call (asked : List Moment) (x : Query) : Task Survey Unit :=
  ((ask q x).zoom serverLens).bind fun outcome =>
    Task.modify fun o => { o with answers := ⟨asked, x, outcome⟩ :: o.answers }

/-- Settings, documents, files and the import graph are as they were. -/
structure Apart (s s' : Server) : Prop where
  configuration : s'.configuration = s.configuration
  documents : s'.documents = s.documents
  files : s'.around.files = s.around.files
  graph : s'.graph = s.graph

/-- The runs of a survey with their histories, newest moments first. It begins with a server. Questions
are asked at any time, and tasks join that leave alone all that is known of documents; tasks move in any
order; between two moves documents are edited, files change and are told to have changed, all is
forgotten, analyses come and go, and time passes. -/
inductive Run (texts : Set String) (s₀ : Server) : List Moment → Machine Survey → Prop
  | start : Run texts s₀ [⟨none, s₀⟩] (Machine.start ⟨s₀, []⟩)
  | call {h : List Moment} {m : Machine Survey} (x : Query) : Run texts s₀ h m →
    (∀ t, x.text = some t → t ∈ texts) → Run texts s₀ h (m.spawn (call q h x))
  | beside {h : List Moment} {m : Machine Survey} {t : Server.Job Unit} : Run texts s₀ h m →
    t.Keeps Server.Abides → Run texts s₀ h (m.spawn (t.zoom serverLens))
  | event {h : List Moment} {m : Machine Survey} (e : Event) : Run texts s₀ h m →
    Run texts s₀ (⟨some e, e.apply m.state.server⟩ :: h)
      { m with state := serverLens.modify e.apply m.state }
  | other {h : List Moment} {m : Machine Survey} (s : Server) (t : Instant) : Run texts s₀ h m →
    Apart m.state.server s → Run texts s₀ (⟨none, s⟩ :: h)
      { m with state := { m.state with server := s }, now := t }
  | move {h : List Moment} {m n : Machine Survey} (id : TaskId) : Run texts s₀ h m →
    m.step? id = some n → Run texts s₀ (⟨none, n.state.server⟩ :: h) n

end Asking

/-- What was read of a file at a look still counts. -/
def Unspoiled (u : Url) (look h : List Moment) : Prop :=
  ∀ m older, m :: older <:+ h → look <:+ older → ¬ m.Spoils u

/-- What was read of a document, from the last moment of a look on until what was seen: the open
document at once, or in two steps the status and the text of the file. -/
inductive Saw (u : Url) : Option Snapshot → List Moment → List Moment → Prop
  | shown {m : Moment} {h : List Moment} {x : Snapshot} :
    m.server.documents.snapshot? u = some x → Saw u (some x) (m :: h) (m :: h)
  | onDisk {m p n : Moment} {h k l : List Moment} : m.server.documents.snapshot? u = none →
    m :: h <:+ p :: k → p :: k <:+ n :: l →
    Saw u ((DocumentStore.statOf? p.server.around.files u).bind fun f =>
      (n.server.fileText? u).map fun t => ⟨u, t, f⟩) (m :: h) (n :: l)

/-- What the process makes of texts, each with the name of its file. -/
structure Oracle where
  imports : String → String → Except Failure (List ImportEdge) → Prop
  symbols : String → String → Except Failure (List Symbol) → Prop

/-- A failure of the process itself, which may befall any question. -/
def Oracle.Breaks (o : Oracle) (f : Failure) : Prop :=
  f.needsRestart = true ∧ ∃ t file, o.imports t file (.error f) ∨ o.symbols t file (.error f)

/-- Questions that leave alone all that is known of documents and are answered as an oracle has it. -/
structure Oracle.Answers (o : Oracle) (q : Server.Questions) : Prop where
  keepsImports : ∀ text file, (q.imports text file).Keeps Server.Abides
  keepsSymbols : ∀ text file, (q.symbols text file).Keeps Server.Abides
  imports : ∀ text file, (q.imports text file).Gives (o.imports text file)
  symbols : ∀ text file, (q.symbols text file).Gives (o.symbols text file)

/-- What the analysis process is asked leaves alone all that is known of documents. -/
theorem Oracle.answers_process {o : Oracle}
    (himports : ∀ text file, (Server.extractImports text file).Gives (o.imports text file))
    (hsymbols : ∀ text file, (Server.parse text file).Gives (o.symbols text file)) :
    o.Answers Server.process where
  keepsImports _ _ := Server.abides_request _ _ _
  keepsSymbols _ _ := Server.abides_request _ _ _
  imports := himports
  symbols := hsymbols

section Telling

variable (o : Oracle) (texts : Set String)

/-- The symbols at the top of a document, from the analysis held for it or from the parser; a text
that cannot be parsed has none. -/
inductive Tops (x : Snapshot) : List Moment → List Symbol → Prop
  | held {m : Moment} {h : List Moment} {a : Analysis} :
    m.server.analyses.get? x.fingerprint = some a → Tops x (m :: h) a.symbols
  | parsed {h : List Moment} {symbols : List Symbol} :
    o.symbols x.text (Server.filename x.url) (.ok symbols) → Tops x h symbols
  | failed {h : List Moment} {f : Failure} : f.needsRestart = false →
    o.symbols x.text (Server.filename x.url) (.error f) → Tops x h []

/-- A search for cycles takes nothing of a document but its text. -/
def Bare (_ : Snapshot) (_ : List Moment) (_ : Unit) : Prop := True

/-- What was made of a text of this hash, and where its imports were found when that was told. -/
inductive Extracted (u : Url) (hash : UInt64) : Option ImportSet → List Moment → Prop
  | found {t : String} {edges : List ImportEdge} {m : Moment} {h : List Moment} : t ∈ texts →
    Hash.ofText t = hash → o.imports t (Server.filename u) (.ok edges) →
    Extracted u hash (some ⟨hash, edges.map (m.server.locateEdge u)⟩) (m :: h)
  | failed {t : String} {f : Failure} {h : List Moment} : t ∈ texts → Hash.ofText t = hash →
    f.needsRestart = false → o.imports t (Server.filename u) (.error f) → Extracted u hash none h

/-- What may be told of a file by looks at it that are good enough, until now. -/
inductive Reads {α : Type} (sight : Snapshot → List Moment → α → Prop)
    (good : Url → List Moment → Prop) (now : List Moment) (u : Url) : Option (String × α) → Prop
  | missing {look seen : List Moment} : good u look → seen <:+ now → Saw u none look seen →
    Reads sight good now u none
  | read {look seen : List Moment} {x : Snapshot} {a : α} : good u look → seen <:+ now →
    Saw u (some x) look seen → sight x seen a → Reads sight good now u (some (x.text, a))

/-- What may be told of files and texts. -/
def tidings {α : Type} (sight : Snapshot → List Moment → α → Prop)
    (good : Url → List Moment → Prop) (now : List Moment) : Tidings α where
  reads := Reads sight good now
  imports u t x := ∃ told, good u told ∧ told <:+ now ∧ Extracted o texts u (Hash.ofText t) x told

/-- What an extraction of imports comes to, unless the process breaks. -/
def Learns (u : Url) (hash : UInt64) (told : List Moment) : Except Failure ImportSet → Prop
  | .ok set => Extracted o texts u hash (some set) told
  | .error f => o.Breaks f ∨ f.needsRestart = false ∧ Extracted o texts u hash none told

variable (good : Url → List Moment → Prop) (now : List Moment)

/-- What a walk for a waterfall comes to by such readings, unless the process breaks. -/
def SeesWaterfall (key : Url × Nat × UInt64) : Except Failure Waterfall → Prop
  | .ok w => ∃ t ∈ texts, Hash.ofText t = key.2.2 ∧ w.hash = key.2.2 ∧ w.depth = key.2.1 ∧
    WaterfallWalk.Yields (tidings o texts (Tops o) good now) key.1 t key.2.1 w.symbols
  | .error f => o.Breaks f ∨ ∃ t ∈ texts, Hash.ofText t = key.2.2 ∧
    WaterfallWalk.Fails (tidings o texts (Tops o) good now) key.1 t key.2.1

/-- What a search for a cycle comes to by such readings, unless the process breaks. -/
def SeesCycle (key : Url × UInt64) : Except Failure CycleVerdict → Prop
  | .ok v => ∃ t ∈ texts, Hash.ofText t = key.2 ∧
    CycleWalk.Yields (tidings o texts Bare good now) key.1 t v
  | .error f => o.Breaks f ∨ ∃ t ∈ texts, Hash.ofText t = key.2 ∧
    CycleWalk.Fails (tidings o texts Bare good now) key.1 t

end Telling
end Survey
end LanguageServer
