import LanguageServer.Editor.Events
import LanguageServer.Proofs.Server.Stored
import LanguageServer.Proofs.Task.Calling

/-! What an editor tells a session of its documents and files, and what the session does about it at
once. -/
namespace LanguageServer.Editor

variable {compile : Compiler} {u : Url} {r : Revision}

/-- A change counts just when the document is open. -/
theorem changeDocument_fst (s : Server) (u : Url) (version : Int) (edits : List Edit) :
    (s.changeDocument u version edits).1 =
      if s.documents.isOpen u then some (.version u version) else none := by
  simp only [Server.changeDocument, DocumentStore.change, DocumentStore.isOpen,
    Table.contains_eq_isSome_find?]
  cases s.documents.documents.find? u <;> rfl

theorem advance_read {σ α β : Type} (now : Instant) (e : Machine.Effects σ) (f : σ → α)
    (k : α → Task σ β) :
    Machine.advance now (Task.read f >>= k) e = Machine.advance now (k (f e.state)) e := rfl

theorem resume_onServer {α β : Type} (now : Instant) (e : Machine.Effects Session)
    (f : Server → α × Server) (k : α → Action β) :
    Machine.resume now (onServer (Task.update f) >>= k) e =
      some (Machine.advance now (k (f e.state.serving.server).1)
        { e with state := { e.state.serving with server := (f e.state.serving.server).2 } }) := rfl

namespace Session

theorem serving_eq {s : Session} (h : s.isServing = true) : s.serving = s := by
  simp [serving, h]

theorem isServing_serving (s : Session) : s.serving.isServing = true := by
  by_cases h : s.isServing = true
  · rw [serving_eq h, h]
  · simp [serving, h]

theorem find?_revise (s : Session) (u : Url) (version : Int) :
    ∃ r, (s.revise u version).revisions.find? u = some r ∧ r.version = version := by
  simp [revise, Table.find?_insert]

/-- What a session counts as open is open at that version. -/
def Tied (s : Session) : Prop := ∀ u r, s.revisions.find? u = some r →
  ∃ doc, s.server.documents.documents.find? u = some doc ∧ doc.version = r.version

theorem Tied.revise {s : Session} (h : s.Tied) (doc : OpenDocument) {server : Server}
    (hdocuments : server.documents.documents = s.server.documents.documents.insert u doc) :
    (Session.revise u doc.version { s with server }).Tied := by
  intro v r hr
  simp only [Session.revise, Table.find?_insert] at hr
  simp only [Session.revise, hdocuments, Table.find?_insert]
  split
  · next hv =>
    rw [if_pos hv] at hr
    cases hr
    exact ⟨doc, rfl, rfl⟩
  · next hv =>
    rw [if_neg hv] at hr
    exact h v r hr

end Session

/-- The message that tells the diagnostics of a document. -/
def publication (u : Url) (ds : List Diagnostic) (version : Option Int) : Message where
  method := "textDocument/publishDiagnostics"
  params := .object ([("diagnostics", .ofList diagnostic ds), ("uri", u.toJson)] ++
    field "version" (version.map .int))
  number := none

/-- A check that is to come of a document that is open, for how it is now. -/
def Scheduled (compile : Compiler) (s : Session) (t : Action Unit) : Prop :=
  ∃ u r rest, s.revisions.find? u = some r ∧ t = checkLater u r.version (some r.edits) rest compile

/-- Nobody is dropped, and what is new are checks of documents as they are afterwards. -/
structure Schedules (compile : Compiler) (e e' : Machine.Effects Session) : Prop where
  cancelled : e'.cancelled = e.cancelled
  spawned : ∀ p ∈ e'.spawned, p ∈ e.spawned ∨ Scheduled compile e'.state p.2

theorem advance_schedule (compile : Compiler) (now : Instant) (e : Machine.Effects Session)
    (s : Session) (rest : Duration) (hr : s.revisions.find? u = some r) :
    ∃ e', Machine.advance now (schedule u r.version rest compile) { e with state := s } =
      (e', .done ()) ∧ e'.state = s ∧ Schedules compile e e' := by
  refine ⟨_, rfl, rfl, rfl, fun p hp => (List.mem_append.mp hp).imp_right fun hp => ?_⟩
  cases List.mem_singleton.mp hp
  exact ⟨u, r, rest, hr, by simp [hr]⟩

/-- The server learns of one changed file after the other. -/
theorem advance_filesChanged (now : Instant) (us : List Url) (e : Machine.Effects Session)
    (hserving : e.state.isServing = true) : Machine.advance now (filesChanged us) e =
      ({ e with state := { e.state with
          server := us.foldl (fun s u => s.fileChanged u) e.state.server } }, .done ()) := by
  induction us generalizing e with
  | nil => rfl
  | cons u us ih =>
    have hfirst : Machine.advance now (filesChanged (u :: us)) e =
        Machine.advance now (filesChanged us)
          { e with state := Session.serverLens.modify (Server.fileChanged u) e.state.serving } := rfl
    rw [hfirst, Session.serving_eq hserving, ih]
    · rfl
    · exact hserving

/-- What an editor tells of a document or of files. -/
inductive Notice where
  | opened (u : Url) (version : Int) (text : String)
  | changed (u : Url) (version : Int) (edits : List Edit)
  | saved (u : Url)
  | closed (u : Url)
  | filesChanged (us : List Url)

namespace Notice

variable {n : Notice} {s : Session}

def handle (compile : Compiler) : Notice → Action Unit
  | .opened u version text => Editor.opened u version text compile
  | .changed u version edits => Editor.changed u version edits compile
  | .saved u => Editor.saved u compile
  | .closed u => Editor.closed u
  | .filesChanged us => Editor.filesChanged us

/-- A notice as the server learns of it. -/
def event (s : Server) : Notice → Server.Event
  | .opened u version text => .opened u version text
  | .changed u version edits => .changed u version edits
  | .saved u => .saved u
  | .closed u => .closed u
  | .filesChanged us => .filesChanged s.around.files us

/-- The session after a notice, but for the checks that are scheduled. -/
def told (n : Notice) (s : Session) : Session :=
  let after := { s.serving with server := (n.event s.serving.server).apply s.serving.server }
  match n with
  | .opened u version _ => after.revise u version
  | .changed u version _ =>
    if s.serving.server.documents.isOpen u then after.revise u version else after
  | .closed u => Session.post (publication u [] none) { after with revisions := after.revisions.erase u }
  | _ => after

theorem server_told (n : Notice) (s : Session) :
    (n.told s).server = (n.event s.serving.server).apply s.serving.server := by
  cases n with
  | changed u version edits =>
    simp only [told]
    split <;> rfl
  | closed u =>
    simp only [told, Session.post]
    split <;> rfl
  | _ => rfl

theorem isServing_told (n : Notice) (s : Session) : (n.told s).isServing = true := by
  have hserving := s.isServing_serving
  cases n with
  | changed u version edits =>
    simp only [told]
    split <;> exact hserving
  | closed u =>
    simp only [told, Session.post]
    split <;> exact hserving
  | _ => exact hserving

/-- At once nothing is told but that a closed document has no diagnostics. -/
theorem outbox_told (n : Notice) (s : Session) : ∃ ms, (n.told s).outbox = s.outbox ++ ms ∧
    ∀ x ∈ ms, ∃ u, x = publication u [] none := by
  have hserving : s.serving.outbox = s.outbox := by
    simp only [Session.serving]
    split <;> rfl
  have hnothing (v : Session) (hv : v.outbox = s.serving.outbox) :
      ∃ ms, v.outbox = s.outbox ++ ms ∧ ∀ x ∈ ms, ∃ u, x = publication u [] none :=
    ⟨[], by simp [hv, hserving], by simp⟩
  cases n with
  | changed u version edits =>
    simp only [told]
    split <;> exact hnothing _ rfl
  | closed u =>
    simp only [told, Session.post]
    split
    · exact hnothing _ rfl
    · exact ⟨[publication u [] none], by simp [hserving], fun x hx => ⟨u, List.mem_singleton.mp hx⟩⟩
  | _ => exact hnothing _ rfl

/-- What an editor tells is taken in by one move. -/
theorem resume_handle {now : Instant} {e : Machine.Effects Session}
    {r : Machine.Effects Session × Action Unit}
    (h : Machine.resume now (n.handle compile) e = some r) :
    ∃ e', r = (e', .done ()) ∧ e'.state = n.told e.state ∧ Schedules compile e e' := by
  have hnothing (s : Session) : Schedules compile e { e with state := s } := ⟨rfl, fun p => .inl⟩
  -- a document is checked in the version that its edits are counted for
  have hscheduled {u : Url} {version : Int} (s : Session) (rest : Duration) {x : Revision}
      (hx : s.revisions.find? u = some x) (hversion : x.version = version)
      (h : some (Machine.advance now (schedule u version rest compile) { e with state := s }) = some r) :
      ∃ e', r = (e', .done ()) ∧ e'.state = s ∧ Schedules compile e e' := by
    subst hversion
    obtain ⟨e', he', hstate, hspawned⟩ := advance_schedule compile now e s rest hx
    exact ⟨e', (Option.some.inj h).symm.trans he', hstate, hspawned⟩
  cases n with
  | opened u version text =>
    obtain ⟨x, hx, hversion⟩ := Session.find?_revise { e.state.serving with
      server := (e.state.serving.server.openDocument u version text).2 } u version
    exact hscheduled _ restAfterOpening hx hversion h
  | changed u version edits =>
    rw [handle, Editor.changed, resume_onServer, changeDocument_fst] at h
    by_cases hopen : e.state.serving.server.documents.isOpen u = true
    · rw [if_pos hopen] at h
      obtain ⟨x, hx, hversion⟩ := Session.find?_revise { e.state.serving with
        server := (e.state.serving.server.changeDocument u version edits).2 } u version
      simp only [told, if_pos hopen]
      exact hscheduled _ restAfterEdit hx hversion h
    · rw [if_neg hopen] at h
      cases h
      simp only [told, if_neg hopen]
      exact ⟨_, rfl, rfl, hnothing _⟩
  | saved u =>
    have hsaved : Machine.resume now (handle compile (.saved u)) e = some (Machine.advance now
        (Task.read (fun s : Session => s.revisions.find? u) >>= _)
        { e with state := (Notice.saved u).told e.state }) := rfl
    cases hx : ((Notice.saved u).told e.state).revisions.find? u with
    | none =>
      rw [hsaved, advance_read, hx] at h
      cases h
      exact ⟨_, rfl, rfl, hnothing _⟩
    | some x =>
      rw [hsaved, advance_read, hx] at h
      exact hscheduled _ ⟨0⟩ hx rfl h
  | closed u =>
    cases h
    exact ⟨_, rfl, rfl, hnothing _⟩
  | filesChanged us =>
    cases us with
    | nil => cases h
    | cons u us =>
      have hfirst : r = Machine.advance now (Editor.filesChanged us) { e with
          state := Session.serverLens.modify (Server.fileChanged u) e.state.serving } := by
        cases h
        rfl
      rw [hfirst, advance_filesChanged _ _ _ (Session.isServing_serving e.state)]
      exact ⟨_, rfl, rfl, hnothing _⟩

/-- What the session counts as open is open at that version. -/
theorem tied_told (n : Notice) (h : s.serving.Tied) : (n.told s).Tied := by
  cases n with
  | opened u version text => exact h.revise ⟨text, version⟩ rfl
  | changed u version edits =>
    simp only [told, event, Server.Event.apply, Server.changeDocument, DocumentStore.change,
      DocumentStore.isOpen, Table.contains_eq_isSome_find?]
    cases hdoc : s.serving.server.documents.documents.find? u with
    | none => exact h
    | some doc => exact h.revise ⟨String.ofList (Edit.applyAll doc.text.toList edits), version⟩ rfl
  | saved u => exact h
  | closed u =>
    have hclosed : Session.Tied { s.serving with
        server := s.serving.server.closeDocument u
        revisions := s.serving.revisions.erase u } := fun v r hr => by
      simp only [Table.find?_erase] at hr
      split at hr
      · cases hr
      · next hv =>
        obtain ⟨doc, hdoc, hversion⟩ := h v r hr
        refine ⟨doc, ?_, hversion⟩
        simpa [Server.closeDocument, DocumentStore.close, Table.find?_erase, hv] using hdoc
    simp only [told, Session.post]
    split <;> exact hclosed
  | filesChanged us =>
    obtain ⟨hdocuments, -⟩ := Server.told_documents us s.serving.server
    exact fun v r hr => hdocuments ▸ h v r hr

end Notice
end LanguageServer.Editor

/-! Sessions with one editor and their histories: what the editor tells, checks of documents in
whatever order they come to it, and everything else that goes on beside. What is told of a document
ought to be told of the text that it has. -/
namespace LanguageServer.Editor

/-- A session at some time, and what the server learned if that led to it. -/
structure Moment where
  event : Option Server.Event
  session : Session

/-- A moment as one of the server. -/
def Moment.office (m : Moment) : Office.Moment := ⟨m.event, ⟨m.session.server, []⟩⟩

/-- What the server has been through. -/
def past (h : List Moment) : List Office.Moment := h.map Moment.office

/-- Documents are as they were, and so is what is known of them. -/
structure Leaves (s s' : Session) : Prop where
  documents : s'.server.documents = s.server.documents
  analyses : s'.server.analyses = s.server.analyses
  revisions : s'.revisions = s.revisions
  isServing : s'.isServing = s.isServing

/-- What is done beside: the server is taken into use, or documents and files are left alone and no
diagnostics are told. -/
inductive Aside (s : Session) : Session → Prop
  | serves : Aside s s.serving
  | leaves {s' : Session} (ms : List Message) : Leaves s s' →
    s'.server.around.files = s.server.around.files → s'.outbox = s.outbox ++ ms →
    (∀ x ∈ ms, x.method ≠ "textDocument/publishDiagnostics") → Aside s s'

/-- A document is opened while it is closed, and its versions go up while it is open. -/
def Notice.IsProper (s : Session) : Notice → Prop
  | .opened u _ _ => s.server.documents.isOpen u = false
  | .changed u version _ =>
    ∀ doc, s.server.documents.documents.find? u = some doc → doc.version < version
  | _ => True

/-- A task moves, or the session takes in what the editor tells. -/
inductive Moves (compile : Compiler) (m : Machine Session) :
    Option Server.Event → Machine Session → Prop
  | task {n : Machine Session} (id : TaskId) : m.step? id = some n → Moves compile m none n
  | notice {n : Machine Session} (x : Notice) : x.IsProper m.state →
    (m.spawn (x.handle compile)).step? m.next = some n →
    Moves compile m (some (x.event m.state.serving.server)) n

/-- The runs of a session with their histories, newest moments first. Requests for the analysis of a
document may come at any time, and so may tasks that are done beside. Between two moves time passes,
files change, the process and the editor answer, and the editor reads what it was told. -/
inductive Run (compile : Compiler) : List Moment → Machine Session → Prop
  | start (around : Surroundings) (c : Configuration) :
    Run compile [⟨none, .new around c⟩] (.start (.new around c))
  | move {h : List Moment} {m n : Machine Session} {e : Option Server.Event} :
    Run compile h m → Moves compile m e n → Run compile (⟨e, n.state⟩ :: h) n
  | request {h : List Moment} {m : Machine Session} (u : Url)
    {k : Except Failure (Option Analysis) → Action Unit} : Run compile h m →
    (∀ r, (k r).Keeps Aside) →
    Run compile h (m.spawn ((onServer (Server.analyzeBy compile u)).bind k))
  | beside {h : List Moment} {m : Machine Session} {t : Action Unit} : Run compile h m →
    t.Keeps Aside → Run compile h (m.spawn t)
  | other {h : List Moment} {m : Machine Session} (s : Session) (t : Instant) : Run compile h m →
    Leaves m.state s → Run compile (⟨none, s⟩ :: h) { m with state := s, now := t }

/-- A document has the version again that it had, after as many edits, before it was closed. -/
def Resumed (u : Url) (h : List Moment) : Prop :=
  ∃ now before asked older, h = now :: before ∧ asked :: older <:+ h ∧
    asked.session.revisions.find? u = now.session.revisions.find? u ∧
    Office.Shut u (past (asked :: older)) (past h)

/-- An analysis of a text that was read under this version before the document was closed. The flight
that told it had not landed when the document was closed. -/
def Returned (compiles : String → String → Analysis → Prop) (u : Url) (version : Int) (a : Analysis)
    (h : List Moment) : Prop :=
  ∃ t look id m older, Office.Took (.version u version) t look (past h) ∧
    compiles t (Server.filename u) a ∧ m :: older <:+ past h ∧ look <:+ older ∧
    m.event = some (.closed u) ∧ m.outcome? id = none ∧ ∃ l ∈ past h, l.outcome? id = some (.ok a)

/-- Whence an open document has the diagnostics that are told: it could not be analyzed, or they are
those of its text; or the document was closed once and has the same version again since it was opened
anew, and they were found before, or were asked for before. -/
inductive Basis (compiles : String → String → Analysis → Prop) (h : List Moment) (u : Url)
    (doc : OpenDocument) (ds : List Diagnostic) : Prop
  | unavailable (f : Failure) : ds = [unavailable (reason f)] → Basis compiles h u doc ds
  | current (a : Analysis) : compiles doc.text (Server.filename u) a → ds = a.diagnostics →
    Basis compiles h u doc ds
  | returned (a : Analysis) : Returned compiles u doc.version a h → ds = a.diagnostics →
    Basis compiles h u doc ds
  | resumed : Resumed u h → (ds = [] ∨ ∃ f a, f.url = u ∧ Office.Stems compiles (past h) f a ∧
    ds = a.diagnostics) → Basis compiles h u doc ds

/-- As long as a document was never closed, what is told of it is of its text. -/
theorem Basis.of_unclosed {compiles : String → String → Analysis → Prop} {h : List Moment} {u : Url}
    {doc : OpenDocument} {ds : List Diagnostic} (hb : Basis compiles h u doc ds)
    (hopen : ∀ m ∈ past h, m.event ≠ some (.closed u)) : (∃ f, ds = [Editor.unavailable (reason f)]) ∨
      ∃ a, compiles doc.text (Server.filename u) a ∧ ds = a.diagnostics := by
  cases hb with
  | unavailable f hds => exact .inl ⟨f, hds⟩
  | current a ha hds => exact .inr ⟨a, ha, hds⟩
  | returned a ha _ =>
    obtain ⟨_, _, _, m, older, _, _, hm, _, hclosed, _⟩ := ha
    exact absurd hclosed (hopen m (hm.subset List.mem_cons_self))
  | resumed hr _ =>
    obtain ⟨_, _, _, _, _, _, _, m, older, hm, _, hclosed⟩ := hr
    exact absurd hclosed (hopen m (hm.subset List.mem_cons_self))

/-- Diagnostics that are told are none, of no version, or those of an open document and its version. -/
def IsFounded (compiles : String → String → Analysis → Prop) (h : List Moment) (d : DocumentStore)
    (x : Message) : Prop :=
  x.method = "textDocument/publishDiagnostics" → (∃ u, x = publication u [] none) ∨
    ∃ u doc ds, x = publication u ds (some doc.version) ∧ d.documents.find? u = some doc ∧
      Basis compiles h u doc ds

end LanguageServer.Editor
