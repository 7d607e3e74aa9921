import LanguageServer.Proofs.Server.Sessions
import LanguageServer.Proofs.Server.Starting

/-! A server that editors and callers share: what happens to its documents and files, calls for
analyses, and the answers that have been handed over, with the history of it all. -/
namespace LanguageServer

/-- What was handed over to a caller, and how many moments there had been when the call was made. -/
structure Answer where
  asked : Nat
  url : Url
  outcome : Except Failure (Option Analysis)

structure Office where
  server : Server
  answers : List Answer

namespace Office

def serverLens : Lens Office Server := ⟨(·.server), fun s o => { o with server := s }⟩

def complement : serverLens.Complement (List Answer) where
  rest o := o.answers
  whole s answers := ⟨s, answers⟩
  whole_get _ := rfl
  get_whole _ _ := rfl
  rest_whole _ _ := rfl
  set_whole _ _ _ := rfl

/-- An office at some time, and the event that led to it if one did. -/
structure Moment where
  event : Option Server.Event
  office : Office

namespace Moment

abbrev server (m : Moment) : Server := m.office.server

/-- The outcome of a flight that has landed by now. -/
def outcome? (m : Moment) (id : FlightId) : Option (Except Failure Analysis) :=
  m.server.analyses.flights.outcome? id

/-- A document has just been closed, or its file has changed. -/
def Forgets (m : Moment) (u : Url) : Prop := ∃ e, m.event = some e ∧ e.Forgets u

end Moment

variable (compile : String → String → Server.Job (Except Failure Analysis))

/-- Asks for the analysis of a document and hands it over. -/
def call (asked : Nat) (u : Url) : Task Office Unit :=
  ((Server.analyzeBy compile u).zoom serverLens).bind fun outcome =>
    Task.modify fun o => { o with answers := ⟨asked, u, outcome⟩ :: o.answers }

/-- The runs of an office with their histories, newest moments first. Calls join at any time, and so
do tasks that spare documents, files and analyses; tasks move in any order; and between two moves
documents are edited and files change as is proper, and the process and time go their own ways. -/
inductive Run : List Moment → Machine Office → Prop
  | start (s : Server) : s.analyses = .empty → Run [⟨none, ⟨s, []⟩⟩] (Machine.start ⟨s, []⟩)
  | call {h : List Moment} {m : Machine Office} (u : Url) :
    Run h m → Run h (m.spawn (call compile h.length u))
  | beside {h : List Moment} {m : Machine Office} {t : Server.Job Unit} :
    Run h m → t.Keeps Server.Spares → Run h (m.spawn (t.zoom serverLens))
  | event {h : List Moment} {m : Machine Office} (e : Server.Event) : Run h m →
    e.IsProper m.state.server → Run (⟨some e, serverLens.modify e.apply m.state⟩ :: h)
      { m with state := serverLens.modify e.apply m.state }
  | other {h : List Moment} {m : Machine Office} (s : Server) (t : Instant) : Run h m →
    m.state.server.Spares s → Run (⟨none, { m.state with server := s }⟩ :: h)
      { m with state := { m.state with server := s }, now := t }
  | move {h : List Moment} {m n : Machine Office} (id : TaskId) : Run h m →
    m.step? id = some n → Run (⟨none, n.state⟩ :: h) n

/-- In a history a text was read of a document that went by a fingerprint, at once from the editor or
in two steps from the file: the fingerprint in the last moment of `look`, and the text later. -/
inductive Took (f : Fingerprint) (t : String) (look : List Moment) : List Moment → Prop
  | shown {m : Moment} {h : List Moment} : look = m :: h →
    m.server.documents.snapshot? f.url = some ⟨f.url, t, f⟩ → Took f t look (m :: h)
  | onDisk {m p : Moment} {h older : List Moment} : look = p :: older → look <:+ m :: h →
    DocumentStore.statOf? p.server.around.files f.url = some f →
    m.server.fileText? f.url = some t → Took f t look (m :: h)
  | before {m : Moment} {h : List Moment} : Took f t look h → Took f t look (m :: h)

/-- The document has a text at one of the moments. -/
def Has (u : Url) (t : String) (h : List Moment) : Prop := ∃ m ∈ h, m.server.text? u = some t

/-- The file of a document has a text at one of the moments, while an editor shows the document. -/
def Hides (u : Url) (t : String) (h : List Moment) : Prop :=
  ∃ m ∈ h, m.server.documents.isOpen u ∧ m.server.fileText? u = some t

/-- After a look at it a document was closed, or its file changed. -/
def Forgotten (u : Url) (look h : List Moment) : Prop :=
  ∃ m older, m :: older <:+ h ∧ look <:+ older ∧ m.Forgets u

/-- A text that was read before a call comes back after it. The document goes by the same fingerprint
again, but since the look at it, it was closed or its file changed, and the flight that tells the
analysis of the text had not landed then. -/
structure Returns (f : Fingerprint) (t : String) (a : Analysis) (since before : List Moment) :
    Prop where
  names : ∃ m ∈ since, m.server.Names f
  overtakes : ∃ look id newer m older, Took f t look before ∧ since ++ before = newer ++ m :: older ∧
    look <:+ older ∧ m.Forgets f.url ∧ m.outcome? id = none ∧
    ∃ l ∈ newer, l.outcome? id = some (.ok a)

/-- Whence an answer has the text that it was compiled from: the document had it since the call; or
its file did, behind an editor; or it comes back from before the call. -/
inductive Origin (u : Url) (t : String) (a : Analysis) (since before : List Moment) : Prop
  | current : Has u t since → Origin u t a since before
  | hidden : Hides u t since → Origin u t a since before
  | returned (f : Fingerprint) : f.url = u → Returns f t a since before → Origin u t a since before

variable {f : Fingerprint} {t : String} {u : Url} {h since before look : List Moment}

theorem Took.of_suffix {older : List Moment} (ht : Took f t look older) (ho : older <:+ h) :
    Took f t look h := by
  obtain ⟨newer, rfl⟩ := ho
  induction newer with
  | nil => exact ht
  | cons m newer ih => exact .before ih

theorem Took.look_suffix (ht : Took f t look h) : look <:+ h := by
  induction ht with
  | shown hlook => exact hlook ▸ List.suffix_rfl
  | onDisk _ hlook => exact hlook
  | before _ ih => exact ih.trans (List.suffix_cons _ _)

/-- What was read lately the document had lately, unless the file was read behind an editor. -/
theorem Took.split (ht : Took f t look (since ++ before)) :
    Has f.url t since ∨ Hides f.url t since ∨ Took f t look before := by
  induction since with
  | nil => exact .inr (.inr ht)
  | cons m since ih =>
    cases ht with
    | shown _ hs => exact .inl ⟨m, List.mem_cons_self, by simp [Server.text?, hs]⟩
    | onDisk _ _ hstat htext =>
      cases hshown : m.server.documents.snapshot? f.url with
      | none => exact .inl ⟨m, List.mem_cons_self, by simp [Server.text?, hshown, htext]⟩
      | some x =>
        refine .inr (.inl ⟨m, List.mem_cons_self, ?_, htext⟩)
        obtain ⟨doc, hdoc, -⟩ := Option.map_eq_some_iff.mp hshown
        simp [DocumentStore.isOpen, Table.contains_eq_isSome_find?, hdoc]
    | before ht =>
      obtain ⟨p, hp, htext⟩ | ⟨p, hp, htext⟩ | ht := ih ht
      · exact .inl ⟨p, List.mem_cons_of_mem m hp, htext⟩
      · exact .inr (.inl ⟨p, List.mem_cons_of_mem m hp, htext⟩)
      · exact .inr (.inr ht)

theorem Forgotten.of_suffix {older : List Moment} (hf : Forgotten u look older) (ho : older <:+ h) :
    Forgotten u look h := by
  obtain ⟨m, rest, hm, hlook, hforgets⟩ := hf
  exact ⟨m, rest, hm.trans ho, hlook, hforgets⟩

end Office

/-- An analysis that was handed over is compiled from a text that has an origin between the call and
the return, before the answer was there. -/
def Answer.IsTraced (compiles : String → String → Analysis → Prop) (h : List Office.Moment)
    (x : Answer) : Prop :=
  ∀ a, x.outcome = .ok (some a) → ∃ after since before t, h = after ++ (since ++ before) ∧
    before.length + 1 = x.asked ∧ (∀ m ∈ since, x ∉ m.office.answers) ∧
    compiles t (Server.filename x.url) a ∧ Office.Origin x.url t a since before

theorem Answer.IsTraced.of_suffix {compiles : String → String → Analysis → Prop}
    {h older : List Office.Moment} {x : Answer} (hx : x.IsTraced compiles older) (ho : older <:+ h) :
    x.IsTraced compiles h := by
  intro a ha
  obtain ⟨after, since, before, t, rfl, hfrom⟩ := hx a ha
  obtain ⟨newer, rfl⟩ := ho
  exact ⟨newer ++ after, since, before, t, by simp, hfrom⟩

end LanguageServer

/-! What an analysis store holds, begins and tells, traced to the texts that were read for it and to
the flights that told it. -/
namespace LanguageServer.Office

open AnalysisStore (Drops)

/-- A flight as it began: its fingerprint, and the epoch of the document then. -/
structure Flight where
  id : FlightId
  fingerprint : Fingerprint
  started : Epoch

/-- How often the document of a flight had been forgotten when the flight began. -/
def Flight.age (x : Flight) : Nat := x.started.generation + x.started.document

/-- What has happened in an office, which flights have begun, and whether the store is as it was in the
last moment. -/
structure Scene where
  history : List Moment
  flights : List Flight
  isSettled : Bool

def Scene.begin (w : Scene) (x : Flight) : Scene :=
  { w with flights := x :: w.flights, isSettled := false }

/-- An analysis comes of a text that was read under a fingerprint. -/
def Stems (compiles : String → String → Analysis → Prop) (h : List Moment) (f : Fingerprint)
    (a : Analysis) : Prop := ∃ t look, compiles t (Server.filename f.url) a ∧ Took f t look h

/-- A flight has told an analysis, now or before. -/
def Told (h : List Moment) (s : AnalysisStore) (id : FlightId) (a : Analysis) : Prop :=
  s.flights.outcome? id = some (.ok a) ∨ ∃ m ∈ h, m.outcome? id = some (.ok a)

/-- A flight had not landed whenever a document was forgotten. -/
def Outlasts (id : FlightId) (u : Url) (h : List Moment) : Prop :=
  ∀ m ∈ h, m.Forgets u → m.outcome? id = none

variable {compiles : String → String → Analysis → Prop} {h older : List Moment} {w : Scene}
  {s : AnalysisStore} {f : Fingerprint} {a : Analysis} {id : FlightId} {started : Epoch}

theorem Stems.of_suffix (hf : Stems compiles older f a) (ho : older <:+ h) : Stems compiles h f a := by
  obtain ⟨t, look, hcompiled, ht⟩ := hf
  exact ⟨t, look, hcompiled, ht.of_suffix ho⟩

/-- All that a store holds or is about to tell comes of texts that were read under the fingerprint it
is held for. What is held was told by flights that had not landed when its document was forgotten. -/
structure Sourced (compiles : String → String → Analysis → Prop) (w : Scene) (s : AnalysisStore) :
    Prop where
  entries : ∀ p ∈ s.entries.pairs, Stems compiles w.history p.2.fingerprint p.2.analysis ∧
    ∃ id, Told w.history s id p.2.analysis ∧ Outlasts id p.1 w.history
  running : ∀ p ∈ s.flights.running.pairs,
    (∃ x ∈ w.flights, x.id = p.2 ∧ x.fingerprint = p.1) ∧ s.flights.outcome? p.2 = none
  outcomes : ∀ x ∈ w.flights, ∀ a, s.flights.outcome? x.id = some (.ok a) →
    Stems compiles w.history x.fingerprint a
  epochs : ∀ x ∈ w.flights, x.age = s.age x.fingerprint.url ∧
    Outlasts x.id x.fingerprint.url w.history ∨ x.age < s.age x.fingerprint.url
  distinct : ∀ x ∈ w.flights, ∀ y ∈ w.flights, x.id = y.id → x.fingerprint = y.fingerprint
  known : ∀ x ∈ w.flights, x.id < s.flights.next
  ended : ∀ id o, s.flights.outcome? id = some o → id < s.flights.next
  lasting : ∀ id, s.flights.outcome? id = none → ∀ m ∈ w.history, m.outcome? id = none
  ordered : w.history.Pairwise fun m l => ∀ id, m.outcome? id = none → l.outcome? id = none

namespace Sourced

theorem start {o : Office} (ho : o.server.analyses = .empty) :
    Sourced compiles ⟨[⟨none, o⟩], [], true⟩ o.server.analyses where
  entries := by simp [ho, AnalysisStore.empty, Table.empty]
  running := by simp [ho, AnalysisStore.empty, FlightTable.empty, Table.empty]
  outcomes := by simp
  epochs := by simp
  distinct := by simp
  known := by simp
  ended id r hr := by
    simp [ho, AnalysisStore.empty, FlightTable.empty, FlightTable.outcome?] at hr
  lasting id hid m hm := by
    cases List.mem_singleton.mp hm
    exact hid
  ordered := List.pairwise_singleton _ _

/-- Documents are forgotten, or nothing happens, and a moment passes. -/
theorem next {p : Url → Prop} {e : Option Server.Event} {o : Office} (hs : Sourced compiles w s)
    (hdrops : Drops p s o.server.analyses) (hp : ∀ u, Moment.Forgets ⟨e, o⟩ u → p u) :
    Sourced compiles ⟨⟨e, o⟩ :: w.history, w.flights, true⟩ o.server.analyses := by
  have houtcome (id : FlightId) :
      o.server.analyses.flights.outcome? id = s.flights.outcome? id := by rw [hdrops.flights]
  have hlater {id : FlightId} {u : Url} (hu : ¬ p u) (hlasts : Outlasts id u w.history) :
      Outlasts id u (⟨e, o⟩ :: w.history) :=
    List.forall_mem_cons.mpr ⟨fun hm => absurd (hp u hm) hu, hlasts⟩
  have hlasting (id : FlightId) (hid : o.server.analyses.flights.outcome? id = none) :
      ∀ m ∈ w.history, m.outcome? id = none := hs.lasting id (houtcome id ▸ hid)
  refine { hs with
    entries := fun x hx => ?_
    running := ?_
    outcomes := ?_
    epochs := fun x hx => ?_
    known := ?_
    ended := ?_
    lasting := fun id hid => ?_
    ordered := ?_ }
  · obtain ⟨hx, hu⟩ := hdrops.entries x hx
    obtain ⟨hstems, id, htold, hlasts⟩ := hs.entries x hx
    refine ⟨hstems.of_suffix (List.suffix_cons _ _), id, .inr ?_, hlater hu hlasts⟩
    obtain hnow | ⟨m, hm, htold⟩ := htold
    · exact ⟨_, List.mem_cons_self, (houtcome id).trans hnow⟩
    · exact ⟨m, List.mem_cons_of_mem _ hm, htold⟩
  · simpa only [hdrops.flights] using hs.running
  · simp only [hdrops.flights]
    exact fun x hx a ha => (hs.outcomes x hx a ha).of_suffix (List.suffix_cons _ _)
  · by_cases hu : p x.fingerprint.url
    · refine .inr (Nat.lt_of_le_of_lt ?_ (hdrops.age _ hu))
      exact (hs.epochs x hx).elim (fun h => Nat.le_of_eq h.1) Nat.le_of_lt
    · rw [AnalysisStore.age, hdrops.epoch _ hu]
      exact (hs.epochs x hx).imp_left fun h => ⟨h.1, hlater hu h.2⟩
  · simpa only [hdrops.flights] using hs.known
  · simpa only [hdrops.flights] using hs.ended
  · exact List.forall_mem_cons.mpr ⟨hid, hlasting id hid⟩
  · exact List.pairwise_cons.mpr ⟨fun m hm id hid => hlasting id hid m hm, hs.ordered⟩

theorem get? (hs : Sourced compiles w s) (ha : s.get? f = some a) : Stems compiles w.history f a ∧
    ∃ id, Told w.history s id a ∧ Outlasts id f.url w.history := by
  simp only [AnalysisStore.get?, Option.map_eq_some_iff, Option.filter_eq_some_iff,
    decide_eq_true_eq] at ha
  obtain ⟨e, ⟨he, rfl⟩, rfl⟩ := ha
  exact hs.entries (e.fingerprint.url, e) (Table.mem_of_find? he)

theorem outcome?_next (hs : Sourced compiles w s) : s.flights.outcome? s.flights.next = none := by
  by_contra hsome
  obtain ⟨o, ho⟩ := Option.ne_none_iff_exists'.mp hsome
  exact Nat.lt_irrefl _ (hs.ended _ o ho)

theorem begun (hs : Sourced compiles w s) (f : Fingerprint) :
    Sourced compiles (w.begin ⟨s.flights.next, f, s.epoch f.url⟩) (s.begun f) := by
  have hnone := hs.outcome?_next
  refine { hs with
    running := fun p hp => ?_
    outcomes := ?_
    epochs := ?_
    distinct := ?_
    known := ?_
    ended := fun id o ho => Nat.lt_succ_of_lt (hs.ended id o ho) }
  · obtain hp | rfl := Table.mem_insert hp
    · obtain ⟨⟨x, hx, hxp⟩, hwaits⟩ := hs.running p hp
      exact ⟨⟨x, List.mem_cons_of_mem _ hx, hxp⟩, hwaits⟩
    · exact ⟨⟨_, List.mem_cons_self, rfl, rfl⟩, hnone⟩
  · refine List.forall_mem_cons.mpr ⟨fun a ha => ?_, hs.outcomes⟩
    cases hnone.symm.trans ha
  · exact List.forall_mem_cons.mpr ⟨.inl ⟨rfl, fun m hm _ => hs.lasting _ hnone m hm⟩, hs.epochs⟩
  · intro x hx y hy hid
    obtain rfl | hx := List.mem_cons.mp hx <;> obtain rfl | hy := List.mem_cons.mp hy
    · rfl
    · exact absurd (hs.known y hy) (hid ▸ Nat.lt_irrefl _)
    · exact absurd (hs.known x hx) (hid ▸ Nat.lt_irrefl _)
    · exact hs.distinct x hx y hy hid
  · exact List.forall_mem_cons.mpr
      ⟨Nat.lt_succ_self _, fun x hx => Nat.lt_succ_of_lt (hs.known x hx)⟩

/-- A flight lands with what was found for the text that it was begun for. The store is as it was in
some moment until then. -/
theorem landed (hs : Sourced compiles w s) {o : Except Failure Analysis}
    (hx : ⟨id, f, started⟩ ∈ w.flights) (ho : ∀ a, o = .ok a → Stems compiles w.history f a)
    (hnow : ∀ i a, s.flights.outcome? i = some (.ok a) →
      ∃ m ∈ w.history, m.outcome? i = some (.ok a)) :
    Sourced compiles w (s.landed f started id o) := by
  have houtcome (i : FlightId) : (s.landed f started id o).flights.outcome? i =
      if id == i then some o else s.flights.outcome? i := by
    rw [AnalysisStore.flights_landed, FlightTable.outcome?, FlightTable.land, Table.find?_insert,
      FlightTable.outcome?]
  have hage (u : Url) : (s.landed f started id o).age u = s.age u := by
    rw [AnalysisStore.age, AnalysisStore.epoch_landed, AnalysisStore.age]
  have hnext : (s.landed f started id o).flights.next = s.flights.next := by
    rw [AnalysisStore.flights_landed, FlightTable.land]
  refine { hs with
    entries := fun p hp => ?_
    running := fun p hp => ?_
    outcomes := fun x hx' a ha => ?_
    epochs := by simpa only [hage] using hs.epochs
    known := by simpa only [hnext] using hs.known
    ended := fun i r hr => ?_
    lasting := fun i hi => ?_ }
  · obtain hp | ⟨a, rfl, haccepts, rfl⟩ := AnalysisStore.mem_entries_landed hp
    · obtain ⟨hstems, i, htold, hlasts⟩ := hs.entries p hp
      exact ⟨hstems, i, .inr (htold.elim (hnow i _) fun h => h), hlasts⟩
    · refine ⟨ho a rfl, id, .inl ((houtcome id).trans (by simp)), ?_⟩
      obtain ⟨-, hlasts⟩ | hlater := hs.epochs _ hx
      · exact hlasts
      · rw [AnalysisStore.age, ((AnalysisStore.accepts_iff _ _ _).mp haccepts).1] at hlater
        exact absurd hlater (Nat.lt_irrefl _)
  · rw [AnalysisStore.flights_landed] at hp
    obtain ⟨hp, hother⟩ := List.mem_filter.mp hp
    obtain ⟨⟨x, hx', hxid, hxf⟩, hwaits⟩ := hs.running p hp
    refine ⟨⟨x, hx', hxid, hxf⟩, ?_⟩
    rw [houtcome, if_neg, hwaits]
    intro hid
    obtain rfl : id = p.2 := eq_of_beq hid
    have hf : x.fingerprint = f := hs.distinct x hx' _ hx hxid
    simp [← hxf, hf] at hother
  · rw [houtcome] at ha
    split at ha
    · next hid =>
      have hf : f = x.fingerprint := hs.distinct _ hx x hx' (eq_of_beq hid)
      exact hf ▸ ho a (Option.some.inj ha)
    · exact hs.outcomes x hx' a ha
  · rw [houtcome] at hr
    rw [hnext]
    split at hr
    · next hid => exact eq_of_beq hid ▸ hs.known _ hx
    · exact hs.ended i r hr
  · rw [houtcome] at hi
    split at hi
    · cases hi
    · exact hs.lasting i hi

end Sourced
end LanguageServer.Office
