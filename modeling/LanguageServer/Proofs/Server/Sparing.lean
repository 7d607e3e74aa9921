import LanguageServer.Proofs.Server.Sessions
import LanguageServer.Proofs.Server.Starting
import LanguageServer.Server.Hierarchies
import LanguageServer.Server.Workspace

/-! What the services of a server leave alone. All that is asked about imports, hierarchies and the
workspace spares documents and analyses, and to analyze a document changes no analysis but its own. -/
namespace LanguageServer.Server

open Analyzer

variable {α : Type} {s s' s'' : Server} {u v : Url}

theorem Spares.trans (h : Spares s s') (h' : Spares s' s'') : Spares s s'' where
  documents := h'.documents.trans h.documents
  files := h'.files.trans h.files
  analyses := h'.analyses.trans h.analyses

theorem spares_document? (u : Url) : (document? u).Keeps Spares :=
  (abides_document? u).mono fun _ _ h => h.spares

theorem spares_request (op : Operation) (params : Json) (read : Json → Option α) :
    (request op params read).Keeps Spares := (abides_request op params read).mono fun _ _ h => h.spares

theorem spares_read (f : Server → α) : (Task.read f : Job α).Keeps Spares :=
  Task.keeps_read .refl f

theorem spares_graph (f : Instant → ImportGraph → α × ImportGraph) :
    (timed graphLens f).Keeps Spares := ⟨fun _ _ => ⟨rfl, rfl, rfl⟩, fun _ => trivial⟩

theorem spares_withDocument {answer : Snapshot → Job (Except Failure α)}
    (h : ∀ s, (answer s).Keeps Spares) : (withDocument u answer).Keeps Spares := by
  refine Task.Keeps.bind (spares_document? u) fun found => ?_
  cases found with
  | none => trivial
  | some snapshot =>
    refine Task.Keeps.bind keeps_ensureStarted fun started => ?_
    cases started with
    | error f => trivial
    | ok _ => exact Task.Keeps.bind (h snapshot) fun _ => trivial

/-- Questions that spare documents and analyses, as those to the process do. -/
structure Questions.Spare (q : Questions) : Prop where
  imports : ∀ text filename, (q.imports text filename).Keeps Spares
  symbols : ∀ text filename, (q.symbols text filename).Keeps Spares

theorem spare_process : process.Spare :=
  ⟨fun _ _ => spares_request _ _ _, fun _ _ => spares_request _ _ _⟩

section Graph

variable {q : Questions} (hq : q.Spare)
include hq

theorem spares_askImports (u : Url) (text : String) : (askImports u text q).Keeps Spares := by
  refine Task.Keeps.bind (FlightTable.keeps_join (fun _ _ => ⟨rfl, rfl, rfl⟩)
    (fun _ _ => ⟨rfl, rfl, rfl⟩) fun _ => ?_) fun ticket => FlightTable.keeps_await .refl _ _
  refine Task.Keeps.bind (hq.imports _ _) fun edges => ?_
  cases edges with
  | error f => trivial
  | ok edges => exact Task.Keeps.bind (spares_read _) fun _ => trivial

theorem spares_importsOf (u : Url) (text : String) : (importsOf u text q).Keeps Spares := by
  refine Task.Keeps.bind (spares_graph _) fun held => ?_
  cases held with
  | some set => trivial
  | none =>
    refine Task.Keeps.bind (spares_read _) fun _ => Task.Keeps.bind (spares_read _) fun reads => ?_
    refine Task.Keeps.bind (spares_askImports hq u text) fun asked => ?_
    cases asked with
    | error f => trivial
    | ok set => exact Task.Keeps.bind (spares_graph _) fun _ => trivial

theorem spares_importsOnTheWay (u : Url) (text : String) :
    (importsOnTheWay u text q).Keeps Spares := by
  refine Task.Keeps.bind (spares_graph _) fun held => ?_
  cases held with
  | some set => trivial
  | none => exact spares_askImports hq u text

/-- The imports of a file, whether it is the root of a walk or not. -/
theorem spares_importsFrom (root u : Url) (text : String) {k : Except Failure ImportSet → Job α}
    (hk : ∀ r, (k r).Keeps Spares) :
    (if u = root then importsOf u text q >>= k else importsOnTheWay u text q >>= k).Keeps Spares := by
  split
  · exact Task.Keeps.bind (spares_importsOf hq u text) hk
  · exact Task.Keeps.bind (spares_importsOnTheWay hq u text) hk

theorem spares_topSymbols (x : Snapshot) : (topSymbols x q).Keeps Spares := by
  refine Task.Keeps.bind (spares_read _) fun held => ?_
  cases held with
  | some a => trivial
  | none =>
    refine Task.Keeps.bind (hq.symbols _ _) fun symbols => ?_
    cases symbols with
    | ok symbols => trivial
    | error f => dsimp only; split <;> trivial

theorem spares_walkWaterfall (root : Url) (text : String) (depth : Nat) :
    (walkWaterfall root text depth q).Keeps Spares := by
  refine Task.Keeps.bind (spares_read _) fun _ => Task.Keeps.bind (spares_read _) fun reads => ?_
  refine ⟨fun walk => ?_, fun _ => trivial⟩
  obtain ⟨walk, reads⟩ := walk
  dsimp only
  cases walk.next with
  | finished found => trivial
  | expand source walk =>
    refine spares_importsFrom hq root _ _ fun imports => ?_
    cases imports with
    | ok set => trivial
    | error f => dsimp only; split <;> trivial
  | visit file via walk =>
    refine Task.Keeps.bind (spares_read _) fun reads => ?_
    refine Task.Keeps.bind (spares_document? file) fun found => ?_
    cases found with
    | none => trivial
    | some snapshot =>
      refine Task.Keeps.bind (spares_topSymbols hq snapshot) fun symbols => ?_
      cases symbols with
      | error f => trivial
      | ok symbols => trivial

theorem spares_waterfallOf (u : Url) (text : String) (depth : Nat) :
    (waterfallOf u text depth q).Keeps Spares := by
  refine Task.Keeps.bind (spares_graph _) fun held => ?_
  cases held with
  | some w => trivial
  | none =>
    refine Task.Keeps.bind (FlightTable.keeps_join (fun _ _ => ⟨rfl, rfl, rfl⟩)
      (fun _ _ => ⟨rfl, rfl, rfl⟩) fun _ => ?_) fun ticket => FlightTable.keeps_await .refl _ _
    refine Task.Keeps.bind (spares_walkWaterfall hq u text depth) fun found => ?_
    cases found with
    | error f => trivial
    | ok found => exact Task.Keeps.bind (spares_graph _) fun _ => trivial

theorem spares_walkCycle (root : Url) (text : String) : (walkCycle root text q).Keeps Spares := by
  refine Task.Keeps.bind (spares_read _) fun _ => Task.Keeps.bind (spares_read _) fun reads => ?_
  refine Task.Keeps.bind (spares_importsOf hq root text) fun imports => ?_
  cases imports with
  | error f => trivial
  | ok set =>
    refine ⟨fun walk => ?_, fun _ => trivial⟩
    obtain ⟨walk, reads⟩ := walk
    dsimp only
    cases walk.next with
    | verdict v => trivial
    | visit file walk =>
      refine Task.Keeps.bind (spares_read _) fun reads => ?_
      refine Task.Keeps.bind (spares_document? file) fun found => ?_
      cases found with
      | none => trivial
      | some snapshot =>
        refine Task.Keeps.bind (spares_importsOnTheWay hq file snapshot.text) fun imports => ?_
        cases imports with
        | ok set => trivial
        | error f => dsimp only; split <;> trivial

theorem spares_cycleOf (u : Url) (text : String) : (cycleOf u text q).Keeps Spares := by
  refine Task.Keeps.bind (spares_graph _) fun held => ?_
  cases held with
  | some v => trivial
  | none =>
    refine Task.Keeps.bind (FlightTable.keeps_join (fun _ _ => ⟨rfl, rfl, rfl⟩)
      (fun _ _ => ⟨rfl, rfl, rfl⟩) fun _ => ?_) fun ticket => FlightTable.keeps_await .refl _ _
    refine Task.Keeps.bind (spares_walkCycle hq u text) fun found => ?_
    cases found with
    | error f => trivial
    | ok found => exact Task.Keeps.bind (spares_graph _) fun _ => trivial

theorem spares_imports (u : Url) : (imports u q).Keeps Spares :=
  spares_withDocument fun _ => spares_importsOf hq _ _

theorem spares_waterfall (u : Url) (depth : Option Nat) : (waterfall u depth q).Keeps Spares :=
  spares_withDocument fun _ => Task.Keeps.bind (spares_read _) fun _ => spares_waterfallOf hq _ _ _

theorem spares_cycle (u : Url) : (cycle u q).Keeps Spares :=
  spares_withDocument fun _ => spares_cycleOf hq _ _

end Graph

theorem spares_introspect (u : Url) : (introspect u).Keeps Spares :=
  spares_withDocument fun _ => spares_request _ _ _

theorem spares_stdlib (path : String) : (stdlib path).Keeps Spares := by
  unfold stdlib
  split
  · trivial
  · refine Task.Keeps.bind keeps_ensureStarted fun started => ?_
    cases started with
    | error f => trivial
    | ok _ => exact spares_request _ _ _

theorem abides_stop : stop.Keeps Abides := by
  refine abides_changing (Task.Keeps.bind (abides_onClient _) fun _ => ?_)
  refine Task.Keeps.bind (Task.keeps_update fun _ => ⟨rfl, rfl, rfl, rfl, rfl⟩) fun current => ?_
  extract_lets stopped
  have hstopped (x : Unit) : (stopped x).Keeps Abides :=
    Task.Keeps.bind abides_dropReader fun _ => abides_onClient _
  cases current with
  | none => exact hstopped ()
  | some id =>
    refine Task.Keeps.bind (abides_onClient _) fun _ => ?_
    exact Task.Keeps.bind (abides_kill id) hstopped

theorem spares_shutDown : shutDown.Keeps Spares := by
  refine Task.Keeps.bind (Task.keeps_update fun _ => ⟨rfl, rfl, rfl⟩) fun isShutDown => ?_
  split
  · trivial
  · exact abides_stop.mono fun _ _ h => h.spares

theorem spares_scan : scan.Keeps Spares := by
  refine Task.Keeps.bind (spares_read _) fun roots => Task.Keeps.bind ⟨fun scanned => ?_, fun _ => trivial⟩
    fun files => Task.keeps_update fun _ => ⟨rfl, rfl, rfl⟩
  obtain ⟨_ | ⟨root, roots⟩, files⟩ := scanned
  · trivial
  · refine Task.Keeps.bind ⟨fun _ _ => ⟨rfl, rfl, rfl⟩, fun _ => trivial⟩ fun listing => ?_
    cases listing with
    | some listing => trivial
    | none =>
      refine Task.Keeps.bind (spares_read _) fun listing => Task.Keeps.bind trivial fun _ => ?_
      exact Task.Keeps.bind ⟨fun _ _ => ⟨rfl, rfl, rfl⟩, fun _ => trivial⟩ fun _ => trivial

theorem spares_scanRoots (roots : List Path) : (scanRoots roots).Keeps Spares :=
  Task.Keeps.bind (Task.keeps_modify fun _ => ⟨rfl, rfl, rfl⟩) fun _ => spares_scan

theorem spares_consult (workspace : Server → Option (List Url)) (ask : Knowledge → α) :
    (consult workspace ask).Keeps Spares := ⟨fun _ => .refl, fun _ => trivial⟩

theorem spares_consultImports (workspace : Server → Option (List Url))
    (ask : Knowledge → α × List Url) : (consultImports workspace ask).Keeps Spares :=
  ⟨fun _ _ => ⟨rfl, rfl, rfl⟩, fun _ => trivial⟩

theorem spares_learnImports (u : Url) : (learnImports u).Keeps Spares := by
  refine Task.Keeps.bind (spares_graph _) fun held => ?_
  cases held with
  | some set => trivial
  | none => exact Task.Keeps.bind (spares_imports spare_process u) fun _ => trivial

theorem spares_outgoing (i : HierarchyItem) : (outgoing i).Keeps Spares :=
  Task.Keeps.bind (spares_learnImports i.url) fun _ => Task.Keeps.bind (spares_read _) fun _ =>
    spares_consultImports _ _

theorem spares_incoming (i : HierarchyItem) : (incoming i).Keeps Spares :=
  Task.Keeps.bind (spares_read _) fun _ => spares_consultImports _ _

theorem spares_subtypes (i : HierarchyItem) : (subtypes i).Keeps Spares :=
  Task.Keeps.bind (spares_read _) fun _ => spares_consult _ _

theorem spares_supertypes (i : HierarchyItem) : (supertypes i).Keeps Spares := by
  refine Task.Keeps.bind (spares_read _) fun isEmpty => ?_
  extract_lets found
  have hfound (x : Unit) : (found x).Keeps Spares :=
    Task.Keeps.bind (spares_read _) fun _ => spares_consult _ _
  split
  · exact Task.Keeps.bind spares_scan fun _ => hfound ()
  · exact hfound ()

/-- Documents are as they were, and so is what the store has of all of them but one. -/
structure Elsewhere (u : Url) (s s' : Server) : Prop where
  documents : s'.documents = s.documents
  tracked : s'.analyses.tracked = s.analyses.tracked
  latest : ∀ v, v ≠ u → s'.analyses.latest? v = s.analyses.latest? v

theorem Elsewhere.refl (u : Url) (s : Server) : Elsewhere u s s := ⟨rfl, rfl, fun _ _ => rfl⟩

theorem Elsewhere.trans (h : Elsewhere u s s') (h' : Elsewhere u s' s'') : Elsewhere u s s'' where
  documents := h'.documents.trans h.documents
  tracked := h'.tracked.trans h.tracked
  latest v hv := (h'.latest v hv).trans (h.latest v hv)

theorem Spares.elsewhere (h : Spares s s') (u : Url) : Elsewhere u s s' :=
  ⟨h.documents, congrArg (·.tracked) h.analyses, fun v _ => congrArg (·.latest? v) h.analyses⟩

theorem elsewhere_offer (f : Fingerprint) (started : Epoch) (a : Analysis) (s : Server) :
    Elsewhere f.url s (analysesLens.modify (·.offer f started a) s) := by
  by_cases h : s.analyses.accepts f started
  · refine ⟨rfl, by simp [Lens.modify, analysesLens, AnalysisStore.offer, h], fun v hv => ?_⟩
    simp [Lens.modify, analysesLens, AnalysisStore.offer, AnalysisStore.latest?, h,
      Table.find?_insert, hv.symm]
  · have hsame : analysesLens.modify (·.offer f started a) s = s := by
      simp [Lens.modify, analysesLens, AnalysisStore.offer, h]
    rw [hsame]
    exact .refl _ s

/-- A task that changes at most what the store has of one document, and releases nothing of it. -/
abbrev Minds (u : Url) (t : Job α) (P : α → Prop) : Prop := t.Answers (Elsewhere u) Spares P

theorem minds_of_spares {t : Job α} (h : t.Keeps Spares) : Minds u t fun _ => True :=
  h.answers (fun _ _ h => h.elsewhere u) (Task.gives_true t)

theorem minds_getOrCompute (f : Fingerprint) {compute : Job (Except Failure Analysis)}
    (h : compute.Keeps Spares) :
    Minds f.url (AnalysisStore.getOrCompute analysesLens f compute) fun _ => True := by
  have hflights (s : Server) (t : FlightTable Fingerprint Analysis) :
      Elsewhere f.url s ((analysesLens.andThen AnalysisStore.flightsLens).set t s) :=
    ⟨rfl, rfl, fun _ _ => rfl⟩
  refine Task.answers_then (minds_of_spares (spares_read _)) fun held _ => ?_
  cases held with
  | some a => trivial
  | none =>
    refine Task.answers_then (minds_of_spares (spares_read _)) fun started _ => ?_
    refine Task.answers_then (FlightTable.answers_join hflights hflights fun _ => ?_) fun ticket _ =>
      minds_of_spares (FlightTable.keeps_await .refl _ ticket)
    refine Task.answers_then (minds_of_spares h) fun outcome _ => ?_
    cases outcome with
    | ok a => exact fun t s => ⟨elsewhere_offer f started a s, trivial⟩
    | error e => trivial

theorem gives_document? (u : Url) :
    (document? u).Gives fun found => ∀ x, found = some x → x.fingerprint.url = u := by
  have hnone (x : Snapshot) (hx : none = some x) : x.fingerprint.url = u := nomatch hx
  have hshown : (Task.read (·.documents.snapshot? u) : Job _).Gives fun found =>
      ∀ x, found = some x → x.fingerprint.url = u := by
    refine Task.gives_read fun s x hx => ?_
    obtain ⟨doc, -, rfl⟩ := Option.map_eq_some_iff.mp hx
    rfl
  refine hshown.bind fun found hfound => ?_
  cases found with
  | some x => exact hfound
  | none =>
    dsimp only
    split
    · exact hnone
    · refine (Task.gives_true Task.giveWay).bind fun _ _ => ?_
      have hstat : (Task.read fun s => DocumentStore.statOf? s.around.files u : Job _).Gives
          fun found => ∀ f, found = some f → f.url = u := by
        refine Task.gives_read fun s f hf => ?_
        obtain ⟨size, modified, rfl⟩ := stat_of_statOf? hf
        rfl
      refine hstat.bind fun stat hstat => ?_
      cases stat with
      | none => exact hnone
      | some f =>
        refine (Task.gives_true Task.giveWay).bind fun _ _ => ?_
        refine (Task.gives_true (Task.read _)).bind fun text _ => ?_
        cases text with
        | none => exact hnone
        | some text =>
          rintro x ⟨⟩
          exact hstat f rfl

/-- To analyze a document changes no analysis but its own, and none that is tracked. -/
theorem minds_analyze (u : Url) : Minds u (analyze u) fun _ => True := by
  have hdocument := (spares_document? u).answers (fun _ _ h => h.elsewhere u) (gives_document? u)
  refine Task.answers_then hdocument fun found hfound => ?_
  cases found with
  | none => trivial
  | some x =>
    refine Task.answers_then (minds_of_spares (spares_read _)) fun held _ => ?_
    cases held with
    | some a => trivial
    | none =>
      refine Task.answers_then (minds_of_spares keeps_ensureStarted) fun started _ => ?_
      cases started with
      | error f => trivial
      | ok _ =>
        have hcompute := minds_getOrCompute x.fingerprint (spares_request .compile
          (sourceParams x.text (filename u)) fun j => (Analysis.ofJson? j).map Analysis.normalize)
        rw [hfound x rfl] at hcompute
        exact Task.answers_then hcompute fun _ _ => trivial

theorem minds_prepare (u : Url) (p : Position) : Minds u (prepare u p) fun _ => True := by
  refine Task.answers_then (minds_analyze u) fun analysed _ => ?_
  match analysed with
  | .error f => trivial
  | .ok none => trivial
  | .ok (some a) =>
    refine minds_of_spares (Task.Keeps.bind (spares_learnImports u) fun _ => ?_)
    exact Task.Keeps.bind (spares_consult _ _) fun _ => trivial

end LanguageServer.Server
