import LanguageServer.Proofs.Server.Freshness

/-! What the store gives for an open document. It comes of the text that is shown, or else of one that
was read before the document was last closed, for a flight that began after that. -/
namespace LanguageServer

open AnalysisStore (StoreRun Chronicle)

namespace AnalysisStore

theorem Turn.next_le {h : List Moment} {s t : AnalysisStore} (ht : Turn h s t) :
    s.flights.next ≤ t.flights.next := by
  cases ht with
  | rest => exact Nat.le_refl _
  | begin f => exact Nat.le_succ _
  | land o _ => exact Nat.le_of_eq (by rw [flights_landed, FlightTable.land])

/-- Flights are numbered in the order in which they begin. -/
theorem Chronicle.ordered {h : List Moment} (hc : Chronicle h) :
    h.Pairwise fun x y => y.store.flights.next ≤ x.store.flights.next := by
  have hcons {x y : Moment} {h : List Moment} (hy : y.store.flights.next ≤ x.store.flights.next)
      (hh : (y :: h).Pairwise fun x y => y.store.flights.next ≤ x.store.flights.next) :
      (x :: y :: h).Pairwise fun x y => y.store.flights.next ≤ x.store.flights.next := by
    refine List.pairwise_cons.mpr ⟨List.forall_mem_cons.mpr ⟨hy, fun z hz => ?_⟩, hh⟩
    exact Nat.le_trans ((List.pairwise_cons.mp hh).1 z hz) hy
  induction hc with
  | start => exact List.pairwise_singleton _ _
  | edit e _ ih => exact hcons (Nat.le_of_eq (by cases e <;> rfl)) ih
  | turn _ ht ih => exact hcons ht.next_le ih

/-- What is held was told by a flight that began after its document was last forgotten. -/
theorem StoreRun.began_since {σ : Type} {l : Lens σ AnalysisStore} (hl : l.IsLawful)
    {h : List Moment} {m : Machine σ} (hr : StoreRun l h m) {f : Fingerprint} {a : Analysis}
    (ha : (l.get m.state).get? f = some a) :
    ∃ id, (∃ x ∈ h, x.store.flights.outcome? id = some (.ok a)) ∧
      ∀ x ∈ h, (∃ e, x.edit = some e ∧ e.Forgets f.url) → x.store.flights.next ≤ id := by
  obtain ⟨hc, edit, older, rfl⟩ := (hr.binds hl).holds
  simp only [get?, Option.map_eq_some_iff, Option.filter_eq_some_iff, decide_eq_true_eq] at ha
  obtain ⟨e, ⟨he, rfl⟩, rfl⟩ := ha
  obtain ⟨newer, t, s, rest, id, since, hh, hlands, -, huntouched⟩ :=
    hc.stems (Table.mem_of_find? he)
  obtain ⟨next, start, rest', hs, -, hbegins⟩ := hlands.begun
  rw [hs] at hh
  have hordered := hh ▸ hc.ordered
  refine ⟨id, ⟨t, by simp [hh], ?_⟩, fun x hx hforgets => ?_⟩
  · simp [hlands.flights, FlightTable.outcome?, FlightTable.land, Table.find?_insert]
  · have hsplit : newer ++ t :: (since ++ start :: rest') =
        (newer ++ t :: since) ++ start :: rest' := by simp
    rw [hh, hsplit, List.mem_append] at hx
    obtain hx | hx := hx
    · obtain ⟨e, hedit, hforgets⟩ := hforgets
      exact absurd hforgets (huntouched x hx e hedit)
    · rw [hsplit] at hordered
      have hafter := (List.pairwise_append.mp hordered).2.1
      obtain rfl | hx := List.mem_cons.mp hx
      · exact Nat.le_of_eq hbegins.id
      · exact Nat.le_trans ((List.pairwise_cons.mp hafter).1 x hx) (Nat.le_of_eq hbegins.id)

end AnalysisStore

namespace Server

variable {s : Server} {u : Url} {t : String}

/-- What becomes of the store when it is told of a changed file. -/
def fileEdits (s : Server) (u : Url) : List AnalysisStore.Edit :=
  .forget u :: (s.documents.fingerprint? u).toList.map .track

/-- An event as the store sees it. -/
def Event.edits (s : Server) : Event → List AnalysisStore.Edit
  | .opened u version _ => [.track (.version u version)]
  | .changed u version edits => (s.documents.change u version edits).1.toList.map .track
  | .saved _ => []
  | .closed u => [.forget u]
  | .filesChanged _ told => told.flatMap s.fileEdits

theorem analyses_fileChanged (s : Server) (u : Url) :
    (s.fileChanged u).analyses = (s.fileEdits u).foldl (fun a e => e.apply a) s.analyses := by
  simp only [fileChanged, fileEdits]
  cases s.documents.fingerprint? u with
  | some f => rfl
  | none => rfl

theorem Event.analyses_apply (e : Event) (s : Server) :
    (e.apply s).analyses = (e.edits s).foldl (fun a e => e.apply a) s.analyses := by
  cases e with
  | opened u version text => rfl
  | changed u version edits =>
    simp only [Event.apply, Event.edits, changeDocument]
    split
    · next f _ hchange => simp [hchange, shows, AnalysisStore.Edit.apply]
    · next hchange => simp [hchange]
  | saved u => rfl
  | closed u => rfl
  | filesChanged files told =>
    have hedits (v : Server) (hv : v.documents = s.documents) : v.fileEdits = s.fileEdits := by
      simp only [funext_iff, fileEdits, hv, implies_true]
    simp only [Event.apply, Event.edits]
    generalize hv : s.withFiles files = v
    have hstart : v.documents = s.documents ∧ v.analyses = s.analyses := by
      rw [← hv]
      exact ⟨rfl, rfl⟩
    obtain ⟨hdocuments, hanalyses⟩ := hstart
    rw [← hanalyses]
    clear hv hanalyses
    induction told generalizing v with
    | nil => rfl
    | cons u told ih =>
      rw [List.foldl_cons, ih (v.fileChanged u) hdocuments, List.flatMap_cons, List.foldl_append,
        analyses_fileChanged, hedits v hdocuments]

theorem Event.Forgets.edits {e : Event} (he : e.Forgets u) (s : Server) :
    ∃ d ∈ e.edits s, d.Forgets u := by
  cases e with
  | closed v => exact ⟨_, List.mem_singleton_self _, he⟩
  | filesChanged files told =>
    exact ⟨.forget u, List.mem_flatMap.mpr ⟨u, he, List.mem_cons_self⟩, rfl⟩
  | _ => exact absurd he id

/-- A version of an open document goes on denoting a text until the document is closed. -/
theorem Denotes.event_shown {version : Int} (h : s.Denotes t (.version u version)) {e : Event}
    (he : e.IsProper s) (hclosed : e ≠ .closed u) : (e.apply s).Denotes t (.version u version) := by
  cases e with
  | filesChanged files told =>
    obtain ⟨hdocuments, -⟩ := told_documents told (s.withFiles files)
    obtain ⟨doc, hdoc, hversion⟩ := h
    exact ⟨doc, hdocuments ▸ hdoc, hversion⟩
  | closed v => exact h.event he fun hv => hclosed (congrArg Event.closed hv)
  | _ => exact h.event he id

end Server

namespace Office

variable {compile : String → String → Server.Job (Except Failure Analysis)}
  {compiles : String → String → Analysis → Prop} {h : List Moment} {m : Machine Office}
  {u : Url} {t : String} {look : List Moment}

/-- What the history of an office says of its store. -/
structure Follows (h : List Moment) (g : List AnalysisStore.Moment) : Prop where
  forgets : ∀ x ∈ h, ∀ u, x.Forgets u → ∃ y ∈ g, (∃ e, y.edit = some e ∧ e.Forgets u) ∧
    y.store.flights = x.server.analyses.flights
  flights : ∀ y ∈ g, ∃ x ∈ h, x.server.analyses.flights = y.store.flights

theorem Follows.next {g : List AnalysisStore.Moment} (hg : Follows h g)
    (newer : List AnalysisStore.Moment) (x : Moment)
    (hforgets : ∀ u, x.Forgets u → ∃ y ∈ newer, ∃ e, y.edit = some e ∧ e.Forgets u)
    (hflights : ∀ y ∈ newer, y.store.flights = x.server.analyses.flights) :
    Follows (x :: h) (newer ++ g) where
  forgets := by
    refine List.forall_mem_cons.mpr ⟨fun u hu => ?_, fun z hz u hu => ?_⟩
    · obtain ⟨y, hy, he⟩ := hforgets u hu
      exact ⟨y, List.mem_append_left g hy, he, hflights y hy⟩
    · obtain ⟨y, hy, he⟩ := hg.forgets z hz u hu
      exact ⟨y, List.mem_append_right newer hy, he⟩
  flights y hy := by
    obtain hy | hy := List.mem_append.mp hy
    · exact ⟨x, List.mem_cons_self, (hflights y hy).symm⟩
    · obtain ⟨z, hz, hflights⟩ := hg.flights y hy
      exact ⟨z, List.mem_cons_of_mem x hz, hflights⟩

abbrev storeLens : Lens Office AnalysisStore := serverLens.andThen Server.analysesLens

theorem storeLens_isLawful : storeLens.IsLawful where
  get_set _ _ := rfl
  set_get _ := rfl
  set_set _ _ _ := rfl

/-- The store is edited several times over. -/
theorem storeRun_edits {g : List AnalysisStore.Moment} (hr : StoreRun storeLens g m)
    (edits : List AnalysisStore.Edit) : ∃ newer : List AnalysisStore.Moment,
      StoreRun storeLens (newer ++ g) { m with
        state := storeLens.modify (fun a => edits.foldl (fun a e => e.apply a) a) m.state } ∧
      (∀ e ∈ edits, ∃ y ∈ newer, y.edit = some e) ∧
      ∀ y ∈ newer, y.store.flights = m.state.server.analyses.flights := by
  induction edits generalizing g m with
  | nil => exact ⟨[], hr, by simp, by simp⟩
  | cons e edits ih =>
    obtain ⟨newer, hr', hedits, hflights⟩ := ih (hr.edit e)
    have hsame (a : AnalysisStore) : (e.apply a).flights = a.flights := by cases e <;> rfl
    refine ⟨newer ++ [⟨some e, e.apply m.state.server.analyses⟩], ?_, ?_, ?_⟩
    · rw [List.append_assoc]
      exact hr'
    · refine List.forall_mem_cons.mpr
        ⟨⟨_, List.mem_append_right newer (List.mem_singleton_self _), rfl⟩, fun d hd => ?_⟩
      obtain ⟨y, hy, hyd⟩ := hedits d hd
      exact ⟨y, List.mem_append_left _ hy, hyd⟩
    · intro y hy
      obtain hy | hy := List.mem_append.mp hy
      · exact (hflights y hy).trans (hsame _)
      · exact List.mem_singleton.mp hy ▸ hsame _

/-- A run of an office is a run of its store. -/
theorem Run.storeRun (hkeeps : ∀ text filename, (compile text filename).Keeps Server.Spares)
    (hr : Run compile h m) : ∃ g, StoreRun storeLens g m ∧ Follows h g := by
  have hquiet (o : Office) (u : Url) : ¬ Moment.Forgets ⟨none, o⟩ u := by
    rintro ⟨e, he, -⟩
    cases he
  induction hr with
  | start s hs =>
    refine ⟨_, .start _ hs, fun x hx u hu => ?_, fun y hy => ?_⟩
    · cases List.mem_singleton.mp hx
      exact absurd hu (hquiet _ u)
    · cases List.mem_singleton.mp hy
      exact ⟨_, List.mem_singleton_self _, congrArg AnalysisStore.flights hs⟩
  | call u _ ih =>
    obtain ⟨g, hg, hfollows⟩ := ih
    refine ⟨g, hg.spawn (.bind ?_ fun _ => .keeps (Task.keeps_modify fun _ => rfl)), hfollows⟩
    exact (Server.uses_analyzeBy hkeeps u).zoom ⟨fun _ _ => rfl, fun _ => rfl, fun _ _ _ => rfl⟩
  | beside _ ht ih =>
    obtain ⟨g, hg, hfollows⟩ := ih
    exact ⟨g, hg.spawn (.keeps (ht.zoom fun s p hp => hp.analyses)), hfollows⟩
  | @event h m e _ _ ih =>
    obtain ⟨g, hg, hfollows⟩ := ih
    -- one event may edit the store several times over
    obtain ⟨newer, hg', hedits, hflights⟩ := storeRun_edits hg (e.edits m.state.server)
    have hanalyses := e.analyses_apply m.state.server
    refine ⟨newer ++ g, hg'.other (serverLens.modify e.apply m.state) m.now hanalyses,
      hfollows.next newer _ ?_ fun y hy => ?_⟩
    · rintro u ⟨e', he', hu⟩
      cases he'
      obtain ⟨d, hd, hu⟩ := hu.edits m.state.server
      obtain ⟨y, hy, hyd⟩ := hedits d hd
      exact ⟨y, hy, d, hyd, hu⟩
    · exact (hflights y hy).trans (e.drops m.state.server).flights.symm
  | @other h m s t _ hs ih =>
    obtain ⟨g, hg, hfollows⟩ := ih
    have hsame : AnalysisStore.SameStore storeLens m.state ⟨s, m.state.answers⟩ := hs.analyses
    exact ⟨g, hg.other _ t hsame,
      hfollows.next [] _ (fun u hu => absurd hu (hquiet _ u)) (by simp)⟩
  | @move h m n id _ hstep ih =>
    obtain ⟨g, hg, hfollows⟩ := ih
    exact ⟨_, hg.move id hstep,
      hfollows.next [_] _ (fun u hu => absurd hu (hquiet _ u)) (by simp; rfl)⟩

/-- After a look at it a document was closed. -/
def Shut (u : Url) (look h : List Moment) : Prop :=
  ∃ m older, m :: older <:+ h ∧ look <:+ older ∧ m.event = some (.closed u)

theorem Shut.cons (hs : Shut u look h) (x : Moment) : Shut u look (x :: h) := by
  obtain ⟨m, older, hm, hlook, hevent⟩ := hs
  exact ⟨m, older, hm.trans (List.suffix_cons x h), hlook, hevent⟩

theorem Took.shown_or_before {x : Moment} {version : Int}
    (ht : Took (.version u version) t look (x :: h)) :
    x.server.Denotes t (.version u version) ∨ Took (.version u version) t look h := by
  cases ht with
  | shown _ hshown => exact .inl (Server.denotes_snapshot hshown)
  | onDisk _ _ hstat _ =>
    obtain ⟨size, modified, heq⟩ := Server.stat_of_statOf? hstat
    cases heq
  | before ht => exact .inr ht

section Run

variable (hcompile : Compiles compile compiles)
include hcompile

theorem Run.documents_move {n : Machine Office} (hr : Run compile h m) {id : TaskId}
    (hn : m.step? id = some n) : n.state.server.documents = m.state.server.documents := by
  obtain ⟨flights, hbinds⟩ := hr.binds hcompile
  obtain ⟨now, older, rfl, hdocuments, -⟩ := hbinds.holds.current
  obtain ⟨⟨h', flights', b⟩, ⟨hh, -⟩, hn⟩ :=
    hbinds.step terms_orderly ⟨List.suffix_rfl, List.suffix_rfl, rfl⟩ hn
  obtain ⟨now', older', hh', hdocuments', -⟩ := hn.holds.current
  cases hh.symm.trans hh'
  exact hdocuments'.symm.trans hdocuments

/-- What was read of a version is what it stands for, unless the document was closed since. -/
theorem Run.recalls (hr : Run compile h m) {version : Int}
    (ht : Took (.version u version) t look h) :
    Shut u look h ∨ m.state.server.Denotes t (.version u version) := by
  induction hr with
  | start s _ =>
    obtain hnow | ht := ht.shown_or_before
    · exact .inr hnow
    · cases ht
  | call v _ ih => exact ih ht
  | beside _ _ ih => exact ih ht
  | @event h m e _ he ih =>
    obtain hnow | ht := ht.shown_or_before
    · exact .inr hnow
    · obtain hshut | hdenotes := ih ht
      · exact .inl (hshut.cons _)
      · by_cases hclosed : e = .closed u
        · exact .inl ⟨_, h, List.suffix_rfl, ht.look_suffix, congrArg some hclosed⟩
        · exact .inr (hdenotes.event_shown he hclosed)
  | other s now _ hs ih =>
    obtain hnow | ht := ht.shown_or_before
    · exact .inr hnow
    · obtain hshut | hdenotes := ih ht
      · exact .inl (hshut.cons _)
      · exact .inr (hdenotes.congr hs.documents hs.files)
  | move id hr hn ih =>
    obtain hnow | ht := ht.shown_or_before
    · exact .inr hnow
    · obtain hshut | ⟨doc, hdoc⟩ := ih ht
      · exact .inl (hshut.cons _)
      · exact .inr ⟨doc, hr.documents_move hcompile hn ▸ hdoc⟩

omit hcompile in
/-- An analysis was held too late. The text was read before its document was closed, and the flight
that told the analysis began when the document had been closed for the last time. -/
structure Overtaken (compiles : String → String → Analysis → Prop) (h : List Moment)
    (f : Fingerprint) (a : Analysis) : Prop where
  closed : ∃ t look, Took f t look h ∧ compiles t (Server.filename f.url) a ∧ Shut f.url look h
  late : ∃ id, (∃ m ∈ h, m.outcome? id = some (.ok a)) ∧
    ∀ m ∈ h, m.Forgets f.url → m.server.analyses.flights.next ≤ id

/-- What the store gives for an open document is the analysis of the text that is shown, unless the
text was read before the document was closed and its flight began after that. -/
theorem Run.stored_current (hr : Run compile h m) {x : Snapshot} {a : Analysis}
    (hx : m.state.server.documents.snapshot? u = some x)
    (ha : m.state.server.analyses.get? x.fingerprint = some a) :
    compiles x.text (Server.filename u) a ∨ Overtaken compiles h x.fingerprint a := by
  obtain ⟨doc, hdoc, rfl⟩ := Option.map_eq_some_iff.mp hx
  obtain ⟨flights, hbinds⟩ := hr.binds hcompile
  obtain ⟨⟨t, look, hcompiled, ht⟩, -⟩ := hbinds.holds.sourced.get? ha
  obtain hshut | ⟨doc', hdoc', -, htext⟩ := hr.recalls hcompile ht
  · obtain ⟨g, hg, hfollows⟩ := hr.storeRun hcompile.keeps
    obtain ⟨id, ⟨y, hy, htold⟩, hlate⟩ := hg.began_since storeLens_isLawful ha
    refine .inr ⟨⟨t, look, ht, hcompiled, hshut⟩, id, ?_, fun p hp hforgets => ?_⟩
    · obtain ⟨p, hp, hflights⟩ := hfollows.flights y hy
      exact ⟨p, hp, (congrArg (·.outcome? id) hflights).trans htold⟩
    · obtain ⟨z, hz, hforgets, hflights⟩ := hfollows.forgets p hp _ hforgets
      exact hflights ▸ hlate z hz hforgets
  · obtain rfl : doc = doc' := Option.some.inj (hdoc.symm.trans hdoc')
    exact .inl (htext rfl ▸ hcompiled)

end Run

/-! A run in which the store gives an old analysis: a call has read a document when it waits for the
process, and before the process runs the document is closed and opened again with another text. -/

section Overtaken

/-- The process runs from now on. -/
def Stage.launched (r : Stage) : Stage :=
  let s := { r.2.state.server with client := attended.client }
  (⟨none, { r.2.state with server := s }⟩ :: r.1, { r.2 with state := { r.2.state with server := s } })

/-- A server whose process does not run yet. -/
def unattended : Server := { attended with client := .new }

def asking : Stage :=
  .called default
    (.told (.opened default 1 "int a;") ([⟨none, ⟨unattended, []⟩⟩], .start ⟨unattended, []⟩))

def overtaking (r : Stage) : Stage :=
  .launched (.told (.opened default 1 "int b;") (.told (.closed default) r))

/-- The text that is shown is `int b;`, and the store gives the analysis of `int a;` for it. -/
theorem Run.stored_current_overtaken : ∃ r : Stage, ∃ x a, Run echoing r.1 r.2 ∧
    r.2.state.server.documents.snapshot? default = some x ∧
    r.2.state.server.analyses.get? x.fingerprint = some a ∧
    (a = echo x.text ∨ Overtaken (fun t _ a => a = echo t) r.1 x.fingerprint a) ∧
    x.text = "int b;" ∧ a.diagnostics.map (·.message) = ["int a;"] := by
  have hruns : ((Stage.moved 0 asking).bind fun r =>
      (Stage.moved 0 (overtaking r)).bind (Stage.moved 1)).map (fun r =>
        (r.2.state.server.documents.snapshot? default).any fun x => x.text == "int b;" &&
          (r.2.state.server.analyses.get? x.fingerprint).any fun a =>
            a.diagnostics.map (·.message) == ["int a;"]) = some true := by decide +kernel
  obtain ⟨r, hr, hheld⟩ := Option.map_eq_some_iff.mp hruns
  obtain ⟨r₁, hr₁, hr⟩ := Option.bind_eq_some_iff.mp hr
  obtain ⟨r₂, hr₂, hr⟩ := Option.bind_eq_some_iff.mp hr
  have hasking : Run echoing asking.1 asking.2 :=
    ((Run.start unattended rfl).event (.opened default 1 "int a;") rfl).call default
  have hovertaking : Run echoing (overtaking r₁).1 (overtaking r₁).2 :=
    (((run_moved hasking hr₁).event (.closed default) trivial).event _
      (isProper_closed _ _ _ _)).other _ _ ⟨rfl, rfl, rfl⟩
  have hrun : Run echoing r.1 r.2 := run_moved (run_moved hovertaking hr₂) hr
  obtain ⟨x, hx, hheld⟩ := (Option.any_eq_true _ _).mp hheld
  obtain ⟨htext, hheld⟩ := Bool.and_eq_true_iff.mp hheld
  obtain ⟨a, ha, hold⟩ := (Option.any_eq_true _ _).mp hheld
  exact ⟨r, x, a, hrun, hx, ha, hrun.stored_current compiles_echoing hx ha, eq_of_beq htext,
    eq_of_beq hold⟩

end Overtaken
end Office
end LanguageServer
