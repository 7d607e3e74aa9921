import LanguageServer.Proofs.Server.Sparing

/-! What the analysis store tracks is what the editors show. Operations on documents and files happen
at once; all others are tasks that run beside each other. Whatever they come to, the fingerprint that is
tracked for a document is the one of its open text, and what an operation on one document does leaves
what the store has of all others as it is. -/
namespace LanguageServer

namespace AnalysisStore

variable (s : AnalysisStore) (f : Fingerprint) (u v : Url)

@[simp] theorem current?_track :
    (s.track f).current? v = if f.url = v then some f else s.current? v := by
  simp [track, current?, Table.find?_insert]

@[simp] theorem latest?_track : (s.track f).latest? v = s.latest? v := rfl

@[simp] theorem current?_forget :
    (s.forget u).current? v = if u = v then none else s.current? v := by
  simp [forget, current?, Table.find?_erase]

@[simp] theorem latest?_forget : (s.forget u).latest? v = if u = v then none else s.latest? v := by
  simp [forget, latest?, Table.find?_erase]

end AnalysisStore

namespace DocumentStore

variable (d : DocumentStore) (u v : Url) (version : Int)

@[simp] theorem fingerprint?_put (text : String) : (d.put u version text).2.fingerprint? v =
    if u = v then some (.version u version) else d.fingerprint? v := by
  by_cases h : u = v <;> simp [put, fingerprint?, Table.find?_insert, h]

@[simp] theorem fingerprint?_close :
    (d.close u).2.fingerprint? v = if u = v then none else d.fingerprint? v := by
  by_cases h : u = v <;> simp [close, fingerprint?, Table.find?_erase, h]

theorem fingerprint?_change {d' : DocumentStore} {edits : List Edit} {f : Fingerprint}
    (h : d.change u version edits = (some f, d')) :
    f = .version u version ∧
      ∀ v, d'.fingerprint? v = if u = v then some (.version u version) else d.fingerprint? v := by
  unfold change at h
  split at h
  · cases h
    refine ⟨rfl, fun v => ?_⟩
    by_cases h : u = v <;> simp [fingerprint?, Table.find?_insert, h]
  · cases h

end DocumentStore

namespace Server

variable {s s' : Server} {u v : Url}

/-- What is tracked for every document is the fingerprint of its open text. -/
def InStep (s : Server) : Prop := ∀ u, s.analyses.current? u = s.documents.fingerprint? u

/-- What the store has of a document is as it was: the fingerprint that it tracks, and the analysis. -/
structure SameOf (v : Url) (s s' : Server) : Prop where
  tracked : s'.analyses.current? v = s.analyses.current? v
  latest : s'.analyses.latest? v = s.analyses.latest? v

/-- The documents that an event is about. -/
def Event.Concerns (u : Url) : Event → Prop
  | .opened v _ _ | .changed v _ _ | .saved v | .closed v => v = u
  | .filesChanged _ told => u ∈ told

theorem inStep_fileChanged (h : s.InStep) (u : Url) : (s.fileChanged u).InStep := by
  intro v
  by_cases huv : u = v
  · subst huv
    cases hdoc : s.documents.documents.find? u with
    | none => simp [fileChanged, DocumentStore.fingerprint?, hdoc]
    | some doc => simp [fileChanged, DocumentStore.fingerprint?, hdoc, Fingerprint.url]
  · have hsame := h v
    cases hdoc : s.documents.documents.find? u with
    | none => simpa [fileChanged, DocumentStore.fingerprint?, hdoc, huv] using hsame
    | some doc => simpa [fileChanged, DocumentStore.fingerprint?, hdoc, huv, Fingerprint.url] using hsame

theorem sameOf_fileChanged (h : u ≠ v) : SameOf v s (s.fileChanged u) := by
  cases hdoc : s.documents.documents.find? u with
  | none => constructor <;> simp [fileChanged, DocumentStore.fingerprint?, hdoc, h]
  | some doc =>
    constructor <;> simp [fileChanged, DocumentStore.fingerprint?, hdoc, h, Fingerprint.url]

/-- A document that is shown anew is tracked with what it shows. -/
theorem InStep.shows (h : s.InStep) {documents : DocumentStore} {version : Int}
    (hdocuments : ∀ v, documents.fingerprint? v =
      if u = v then some (.version u version) else s.documents.fingerprint? v) :
    ({ s with documents }.shows (.version u version)).InStep := by
  intro v
  simp [Server.shows, Fingerprint.url, hdocuments, h v]

/-- An event tracks what it shows, and tracks no document any more that it closes. -/
theorem InStep.event (h : s.InStep) (e : Event) : (e.apply s).InStep := by
  cases e with
  | opened u version text => exact h.shows fun v => s.documents.fingerprint?_put u v version text
  | changed u version edits =>
    simp only [Event.apply, changeDocument]
    split
    · next f documents hchange =>
      obtain ⟨rfl, hdocuments⟩ := DocumentStore.fingerprint?_change _ _ _ hchange
      exact h.shows hdocuments
    · exact h
  | saved u => exact h
  | closed u => exact fun v => by simp [Event.apply, closeDocument, h v]
  | filesChanged files told =>
    change InStep (told.foldl (fun s u => s.fileChanged u) (s.withFiles files))
    have hfiles : (s.withFiles files).InStep := h
    generalize s.withFiles files = start at hfiles
    induction told generalizing start with
    | nil => exact hfiles
    | cons u told ih => exact ih _ (inStep_fileChanged hfiles u)

theorem SameOf.refl (v : Url) (s : Server) : SameOf v s s := ⟨rfl, rfl⟩

theorem SameOf.trans {s'' : Server} (h : SameOf v s s') (h' : SameOf v s' s'') : SameOf v s s'' :=
  ⟨h'.tracked.trans h.tracked, h'.latest.trans h.latest⟩

/-- An event leaves what the store has of documents that it is not about. -/
theorem sameOf_event {e : Event} (he : ¬ e.Concerns v) : SameOf v s (e.apply s) := by
  cases e with
  | opened u version text =>
    have huv : u ≠ v := he
    constructor <;> simp [Event.apply, openDocument, shows, DocumentStore.put, Fingerprint.url, huv]
  | changed u version edits =>
    have huv : u ≠ v := he
    simp only [Event.apply, changeDocument]
    split
    · next f documents hchange =>
      obtain ⟨rfl, -⟩ := DocumentStore.fingerprint?_change _ _ _ hchange
      constructor <;> simp [shows, Fingerprint.url, huv]
    · exact .refl v s
  | saved u => exact ⟨rfl, rfl⟩
  | closed u =>
    have huv : u ≠ v := he
    constructor <;> simp [Event.apply, closeDocument, huv]
  | filesChanged files told =>
    change SameOf v s (told.foldl (fun s u => s.fileChanged u) (s.withFiles files))
    have hfiles : SameOf v s (s.withFiles files) := ⟨rfl, rfl⟩
    generalize s.withFiles files = start at hfiles
    induction told generalizing start with
    | nil => exact hfiles
    | cons u told ih =>
      obtain ⟨hne, htold⟩ := not_or.mp (mt List.mem_cons.mpr he)
      exact ih htold _ (hfiles.trans (sameOf_fileChanged (Ne.symm hne)))

/-- What the service may be asked for that takes its time. -/
inductive Query where
  | ensureStarted
  | shutDown
  | scan (roots : List Path)
  | analyze (u : Url)
  | imports (u : Url)
  | waterfall (u : Url) (depth : Option Nat)
  | cycle (u : Url)
  | introspect (u : Url)
  | stdlib (path : String)
  | prepare (u : Url) (p : Position)
  | outgoing (i : HierarchyItem)
  | incoming (i : HierarchyItem)
  | supertypes (i : HierarchyItem)
  | subtypes (i : HierarchyItem)
  deriving Inhabited

namespace Query

/-- The document that is asked about. -/
def subject? : Query → Option Url
  | ensureStarted | shutDown | scan _ | stdlib _ => none
  | analyze u | imports u | waterfall u _ | cycle u | introspect u | prepare u _ => some u
  | outgoing i | incoming i | supertypes i | subtypes i => some i.url

/-- Asks; what becomes of the answer is left to who asks. -/
def job : Query → Job Unit
  | ensureStarted => Server.ensureStarted >>= fun _ => pure ()
  | shutDown => Server.shutDown
  | scan roots => scanRoots roots >>= fun _ => pure ()
  | analyze u => Server.analyze u >>= fun _ => pure ()
  | imports u => Server.imports u >>= fun _ => pure ()
  | waterfall u depth => Server.waterfall u depth >>= fun _ => pure ()
  | cycle u => Server.cycle u >>= fun _ => pure ()
  | introspect u => Server.introspect u >>= fun _ => pure ()
  | stdlib path => Server.stdlib path >>= fun _ => pure ()
  | prepare u p => Server.prepare u p >>= fun _ => pure ()
  | outgoing i => Server.outgoing i >>= fun _ => pure ()
  | incoming i => Server.incoming i >>= fun _ => pure ()
  | supertypes i => Server.supertypes i >>= fun _ => pure ()
  | subtypes i => Server.subtypes i >>= fun _ => pure ()

/-- Documents and what is tracked are as they were, and so are the analyses of all documents that are
not asked about. -/
structure Leaves (q : Query) (s s' : Server) : Prop where
  documents : s'.documents = s.documents
  tracked : s'.analyses.tracked = s.analyses.tracked
  latest : ∀ v, q.subject? ≠ some v → s'.analyses.latest? v = s.analyses.latest? v

variable {q : Query}

theorem Leaves.refl (q : Query) (s : Server) : q.Leaves s s := ⟨rfl, rfl, fun _ _ => rfl⟩

theorem Leaves.trans {s'' : Server} (h : q.Leaves s s') (h' : q.Leaves s' s'') : q.Leaves s s'' where
  documents := h'.documents.trans h.documents
  tracked := h'.tracked.trans h.tracked
  latest v hv := (h'.latest v hv).trans (h.latest v hv)

theorem leaves_of_spares (h : Spares s s') : q.Leaves s s' :=
  ⟨h.documents, congrArg (·.tracked) h.analyses, fun v _ => congrArg (·.latest? v) h.analyses⟩

theorem Leaves.sameOf (h : q.Leaves s s') (hv : q.subject? ≠ some v) : SameOf v s s' :=
  ⟨congrArg (·.find? v) h.tracked, h.latest v hv⟩

theorem Leaves.inStep (h : q.Leaves s s') (hs : s.InStep) : s'.InStep := by
  intro v
  rw [h.documents, ← hs v]
  exact congrArg (·.find? v) h.tracked

/-- Whatever is asked, no more changes than the analysis of the document that it is about. -/
theorem job_answers (q : Query) : q.job.Answers q.Leaves Spares fun _ => True := by
  have hspares {α : Type} {t : Job α} (h : t.Keeps Spares) :
      (t >>= fun _ => pure ()).Answers q.Leaves Spares fun _ => True :=
    (Task.Keeps.bind (g := fun _ => .done ()) h fun _ => trivial).answers
      (fun _ _ => leaves_of_spares) (Task.gives_true _)
  have hminds {α : Type} {u : Url} {t : Job α} (hq : q.subject? = some u)
      (h : Minds u t fun _ => True) : (t >>= fun _ => pure ()).Answers q.Leaves Spares fun _ => True := by
    refine Task.answers_then (h.mono (fun s s' h => ?_) fun _ => id) fun _ _ => trivial
    exact ⟨h.documents, h.tracked, fun v hv => h.latest v fun huv => hv (huv ▸ hq)⟩
  cases q with
  | ensureStarted => exact hspares keeps_ensureStarted
  | shutDown => exact spares_shutDown.answers (fun _ _ => leaves_of_spares) (Task.gives_true _)
  | scan roots => exact hspares (spares_scanRoots roots)
  | analyze u => exact hminds rfl (minds_analyze u)
  | imports u => exact hspares (spares_imports spare_process u)
  | waterfall u depth => exact hspares (spares_waterfall spare_process u depth)
  | cycle u => exact hspares (spares_cycle spare_process u)
  | introspect u => exact hspares (spares_introspect u)
  | stdlib path => exact hspares (spares_stdlib path)
  | prepare u p => exact hminds rfl (minds_prepare u p)
  | outgoing i => exact hspares (spares_outgoing i)
  | incoming i => exact hspares (spares_incoming i)
  | supertypes i => exact hspares (spares_supertypes i)
  | subtypes i => exact hspares (spares_subtypes i)

/-- The runs of a server, with what each task was begun for. The service is asked at any time, and what
was asked goes on in any order; documents are edited and files change between any two moves, properly or
not, and the process and time go their own ways. -/
inductive Run : (TaskId → Query) → Machine Server → Prop
  | start (s : Server) (asked : TaskId → Query) : s.documents = .empty → s.analyses = .empty →
    Run asked (Machine.start s)
  | ask {asked : TaskId → Query} {m : Machine Server} (q : Query) : Run asked m →
    Run (Function.update asked m.next q) (m.spawn q.job)
  | event {asked : TaskId → Query} {m : Machine Server} (e : Event) : Run asked m →
    Run asked { m with state := e.apply m.state }
  | other {asked : TaskId → Query} {m : Machine Server} (s : Server) (t : Instant) : Run asked m →
    m.state.Spares s → Run asked { m with state := s, now := t }
  | move {asked : TaskId → Query} {m n : Machine Server} (id : TaskId) : Run asked m →
    m.step? id = some n → Run (Machine.inherit asked m.next id) n

variable {asked : TaskId → Query} {m n : Machine Server} {id : TaskId}

theorem Run.owned (hr : Run asked m) : m.Owned asked Query.Leaves Spares := by
  induction hr with
  | start s asked => exact .start s
  | ask q _ ih => exact ih.spawn q.job_answers
  | event e _ ih => exact ih.others _ _
  | other s t _ _ ih => exact ih.others s t
  | move id _ hstep ih =>
    exact (ih.step Query.Leaves.refl (fun _ _ _ _ => .trans) .refl (fun _ _ _ => .trans)
      (fun _ _ _ => Query.leaves_of_spares) hstep).2

theorem Run.leaves (hr : Run asked m) (hstep : m.step? id = some n) :
    (asked id).Leaves m.state n.state :=
  (hr.owned.step Query.Leaves.refl (fun _ _ _ _ => .trans) .refl (fun _ _ _ => .trans)
    (fun _ _ _ => Query.leaves_of_spares) hstep).1

theorem Run.inStep (hr : Run asked m) : m.state.InStep := by
  induction hr with
  | start s asked hdocuments hanalyses =>
    intro u
    simp [Machine.start, hdocuments, hanalyses, DocumentStore.fingerprint?, DocumentStore.empty,
      AnalysisStore.current?, AnalysisStore.empty]
  | ask q _ ih => exact ih
  | event e _ ih => exact ih.event e
  | other s t _ hs ih => exact (Query.leaves_of_spares (q := default) hs).inStep ih
  | move id hr hstep ih => exact (hr.leaves hstep).inStep ih

/-- What is tracked in a machine is what is shown, and nobody changes what the store has of documents
that are no concern of theirs. -/
structure Tracks (asked : TaskId → Query) (m : Machine Server) : Prop where
  shown : ∀ u, m.state.analyses.current? u = m.state.documents.fingerprint? u
  opened : ∀ u doc, m.state.documents.documents.find? u = some doc →
    m.state.analyses.current? u = some (.version u doc.version)
  closed : ∀ u, m.state.documents.isOpen u = false → m.state.analyses.current? u = none
  events : ∀ (e : Event) v, ¬ e.Concerns v → SameOf v m.state (e.apply m.state)
  moves : ∀ id n v, m.step? id = some n → (asked id).subject? ≠ some v → SameOf v m.state n.state

/-- In every run the store tracks what is shown. -/
theorem Run.tracks (hr : Run asked m) : Tracks asked m where
  shown := hr.inStep
  opened u doc hdoc := by simp [hr.inStep u, DocumentStore.fingerprint?, hdoc]
  closed u hclosed := by
    rw [DocumentStore.isOpen, Table.contains_eq_isSome_find?] at hclosed
    simpa [hr.inStep u, DocumentStore.fingerprint?] using hclosed
  events e v he := sameOf_event he
  moves id n v hstep hv := (hr.leaves hstep).sameOf hv

/-- A document is opened anew at a lower version, and its file changes, while it is analyzed. -/
theorem Run.tracks_reopened : ∃ asked m, Run asked m ∧ Tracks asked m ∧ m.tasks ≠ [] ∧
    m.state.analyses.current? default = some (.version default 1) := by
  let s : Server := .new ⟨.empty, [], .scripted none, [], 0, none⟩ {}
  let m₀ : Machine Server := { Machine.start s with state := (s.openDocument default 3 "int a;").2 }
  have hr₀ : Run (fun _ => default) m₀ := (Run.start s _ rfl rfl).event (.opened default 3 "int a;")
  have hmoves : (((m₀.spawn (job (.analyze default))).step? 0).map fun m =>
      !m.tasks.isEmpty) = some true := by decide +kernel
  obtain ⟨m₁, hm₁, hwaits⟩ := Option.map_eq_some_iff.mp hmoves
  have hr := (((hr₀.ask (.analyze default)).move 0 hm₁).event (.opened default 1 "int b;")).event
    (.filesChanged .empty [default])
  refine ⟨_, _, hr, hr.tracks, by simpa using hwaits, hr.tracks.opened default ⟨"int b;", 1⟩ ?_⟩
  simp [Event.apply, fileChanged, withFiles, openDocument, Server.shows, DocumentStore.put,
    Table.find?_insert]

end Query
end Server
end LanguageServer
