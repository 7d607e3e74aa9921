import LanguageServer.Proofs.Analysis.StoreRun
import LanguageServer.Server.Documents

/-! What starting the process and asking it leave alone: the documents, the files, and what is known
of them. -/
namespace LanguageServer.Server

open Analyzer

/-- Documents, files and analyses are as they were. -/
structure Spares (s s' : Server) : Prop where
  documents : s'.documents = s.documents
  files : s'.around.files = s.around.files
  analyses : s'.analyses = s.analyses

/-- Settings, documents, files and all that is known of them are as they were. -/
structure Abides (s s' : Server) : Prop where
  configuration : s'.configuration = s.configuration
  documents : s'.documents = s.documents
  files : s'.around.files = s.around.files
  analyses : s'.analyses = s.analyses
  graph : s'.graph = s.graph

theorem Abides.refl (s : Server) : Abides s s := ⟨rfl, rfl, rfl, rfl, rfl⟩

variable {s s' : Server}

theorem Abides.spares (h : Abides s s') : Spares s s' := ⟨h.documents, h.files, h.analyses⟩

theorem Spares.refl (s : Server) : Spares s s := ⟨rfl, rfl, rfl⟩

theorem abides_onClient (f : Client → Client) : (onClient f).Keeps Abides :=
  Task.keeps_modify fun _ => ⟨rfl, rfl, rfl, rfl, rfl⟩

theorem abides_reaping {α : Type} (id : ChannelId) {body : Job α} (h : body.Keeps Abides) :
    (reaping id body).Keeps Abides := by
  refine Task.keeps_exclusive Abides.refl (fun _ _ => ?_) h
  exact ⟨rfl, rfl, rfl, rfl, rfl⟩

theorem abides_changing {α : Type} {body : Job α} (h : body.Keeps Abides) :
    (changing body).Keeps Abides := by
  refine Task.keeps_exclusive Abides.refl (fun _ _ => ?_) h
  exact ⟨rfl, rfl, rfl, rfl, rfl⟩

theorem abides_startingUp {α : Type} {body : Job α} (h : body.Keeps Abides) :
    (startingUp body).Keeps Abides := by
  refine Task.keeps_exclusive Abides.refl (fun _ _ => ?_) h
  exact ⟨rfl, rfl, rfl, rfl, rfl⟩

theorem abides_kill (id : ChannelId) : (kill id).Keeps Abides := abides_reaping id (abides_onClient _)

theorem abides_reap (id : ChannelId) : (reap id).Keeps Abides := by
  refine abides_reaping id ?_
  refine Task.Keeps.bind (Task.keeps_read Abides.refl _) fun hasChild => ?_
  split
  · refine Task.Keeps.bind (Task.keeps_awaitFor Abides.refl fun s a s' ha => ?_) fun code => ?_
    · obtain ⟨_, -, heq⟩ := Option.map_eq_some_iff.mp ha
      cases heq
      exact .refl s
    · cases code with
      | some code => exact Task.Keeps.bind (abides_onClient _) fun _ => trivial
      | none => trivial
  · trivial

theorem abides_listen (id : ChannelId) : (listen id).Keeps Abides := by
  refine Task.Keeps.bind ⟨fun _ => ?_, fun _ => trivial⟩ fun _ => ?_
  · refine Task.Keeps.bind (Task.keeps_await fun s a s' ha => ?_) fun heard => ?_
    · obtain ⟨_, -, heq⟩ := Option.map_eq_some_iff.mp ha
      cases heq
      exact ⟨rfl, rfl, rfl, rfl, rfl⟩
    · cases heard with
      | line text => exact Task.Keeps.bind (abides_onClient _) fun _ => trivial
      | ended => trivial
  · refine Task.Keeps.bind (Task.keeps_read Abides.refl _) fun isClosing => ?_
    split
    · exact abides_onClient _
    · exact Task.Keeps.bind (abides_reap id) fun _ => abides_onClient _

theorem abides_send (id : ChannelId) (op : Operation) (params : Json) (limit : Duration) :
    (send id op params limit).Keeps Abides := by
  refine Task.Keeps.bind (Task.keeps_update fun _ => ⟨rfl, rfl, rfl, rfl, rfl⟩) fun posted => ?_
  cases posted with
  | error f => trivial
  | ok n =>
    refine Task.Keeps.bind (Task.keeps_awaitFor Abides.refl fun s a s' ha => ?_) fun answer => ?_
    · obtain ⟨_, -, heq⟩ := Option.map_eq_some_iff.mp ha
      cases heq
      exact ⟨rfl, rfl, rfl, rfl, rfl⟩
    · cases answer with
      | some o => trivial
      | none => exact Task.Keeps.bind (abides_onClient _) fun _ => trivial

theorem abides_dropReader : dropReader.Keeps Abides := by
  refine Task.Keeps.bind (Task.keeps_update fun _ => ⟨rfl, rfl, rfl, rfl, rfl⟩) fun reader => ?_
  cases reader with
  | some task => trivial
  | none => trivial

theorem abides_launch : launch.Keeps Abides := by
  refine Task.keeps_update fun s => ?_
  split
  · exact .refl s
  · exact ⟨rfl, rfl, rfl, rfl, rfl⟩

theorem abides_start : start.Keeps Abides := by
  refine abides_changing (Task.Keeps.bind (Task.keeps_read Abides.refl _) fun isRunning => ?_)
  split
  · trivial
  · refine Task.Keeps.bind (abides_onClient _) fun _ => ?_
    refine Task.Keeps.bind abides_dropReader fun _ => ?_
    refine Task.Keeps.bind (Task.keeps_update fun _ => ⟨rfl, rfl, rfl, rfl, rfl⟩) fun old => ?_
    extract_lets launched
    have hlaunched (x : Unit) : (launched x).Keeps Abides := by
      refine Task.Keeps.bind abides_launch fun outcome => ?_
      cases outcome with
      | error f => exact Task.Keeps.bind (abides_onClient _) fun _ => trivial
      | ok id =>
        refine Task.Keeps.bind ⟨abides_listen id, fun _ => trivial⟩ fun reader => ?_
        refine Task.Keeps.bind (abides_onClient _) fun _ => ?_
        refine Task.Keeps.bind (Task.keeps_read Abides.refl _) fun limit => ?_
        refine Task.Keeps.bind (abides_send id _ _ limit) fun answer => ?_
        cases answer with
        | ok _ => exact Task.Keeps.bind (abides_onClient _) fun _ => trivial
        | error f =>
          refine Task.Keeps.bind (abides_onClient _) fun _ => ?_
          refine Task.Keeps.bind (abides_kill id) fun _ => ?_
          refine Task.Keeps.bind abides_dropReader fun _ => ?_
          exact Task.Keeps.bind (abides_onClient _) fun _ => trivial
    cases old with
    | some id =>
      refine Task.Keeps.bind (abides_onClient _) fun _ => ?_
      exact Task.Keeps.bind (abides_kill id) hlaunched
    | none => exact hlaunched ()

/-- A decision on a start has to do with nothing else than who looks after starts. -/
theorem planStart_eq (now : Instant) (s : Server) :
    ∃ starts, (planStart now s).2 = { s with starts } ∧ starts.isHeld = s.starts.isHeld := by
  unfold planStart
  dsimp only
  split
  · exact ⟨s.starts, rfl, rfl⟩
  · split
    · exact ⟨s.starts, rfl, rfl⟩
    · split
      · exact ⟨s.starts, rfl, rfl⟩
      · split
        · split
          · exact ⟨_, rfl, rfl⟩
          · exact ⟨_, rfl, rfl⟩
        · exact ⟨_, rfl, rfl⟩

theorem abides_planStart (now : Instant) (s : Server) : Abides s (planStart now s).2 := by
  obtain ⟨starts, hstarts, -⟩ := planStart_eq now s
  rw [hstarts]
  exact ⟨rfl, rfl, rfl, rfl, rfl⟩

/-- Whatever becomes of a start, all that is known of documents is as it was. -/
theorem abides_ensureStarted : ensureStarted.Keeps Abides := by
  refine Task.Keeps.bind (Task.keeps_read Abides.refl _) fun isRunning => ?_
  split
  · trivial
  · refine abides_startingUp (Task.Keeps.bind ⟨fun _ => Abides.refl, fun _ => trivial⟩ fun now => ?_)
    refine Task.Keeps.bind (Task.keeps_update (abides_planStart now)) fun plan => ?_
    cases plan with
    | running => trivial
    | refused f => trivial
    | tried =>
      refine Task.Keeps.bind abides_start fun outcome => ?_
      split
      · exact Task.Keeps.bind (Task.keeps_modify fun _ => ⟨rfl, rfl, rfl, rfl, rfl⟩) fun _ => trivial
      · trivial

theorem abides_request {α : Type} (op : Operation) (params : Json) (read : Json → Option α) :
    (request op params read).Keeps Abides := by
  refine Task.Keeps.bind (Task.keeps_read Abides.refl _) fun target => ?_
  cases target with
  | error f => trivial
  | ok id =>
    refine Task.Keeps.bind (Task.keeps_read Abides.refl _) fun limit => ?_
    refine Task.Keeps.bind (abides_send id op params limit) fun answer => ?_
    cases answer with
    | error f => trivial
    | ok j =>
      dsimp only
      split
      · trivial
      · trivial

theorem abides_document? (u : Url) : (document? u).Keeps Abides := by
  refine Task.Keeps.bind (Task.keeps_read Abides.refl _) fun shown => ?_
  cases shown with
  | some snapshot => trivial
  | none =>
    dsimp only
    split
    · trivial
    · refine Task.Keeps.bind trivial fun _ => ?_
      refine Task.Keeps.bind (Task.keeps_read Abides.refl _) fun fingerprint => ?_
      cases fingerprint with
      | none => trivial
      | some fingerprint =>
        refine Task.Keeps.bind trivial fun _ => ?_
        refine Task.Keeps.bind (Task.keeps_read Abides.refl _) fun text => ?_
        cases text with
        | none => trivial
        | some text => trivial

theorem keeps_ensureStarted : ensureStarted.Keeps Spares := abides_ensureStarted.mono fun _ _ h => h.spares

theorem analysesLens_isLawful : analysesLens.IsLawful where
  get_set _ _ := rfl
  set_get _ := rfl
  set_set _ _ _ := rfl

/-- An analysis is asked for in the one way that the histories of a store are about. -/
theorem uses_analyzeBy {compile : String → String → Job (Except Failure Analysis)}
    (hcompile : ∀ text filename, (compile text filename).Keeps Spares) (u : Url) :
    AnalysisStore.Uses analysesLens (analyzeBy compile u) := by
  have hkeeps {α : Type} {t : Job α} (ht : t.Keeps Spares) : AnalysisStore.Uses analysesLens t :=
    .keeps (ht.mono fun _ _ h => h.analyses)
  refine .bind (hkeeps ((abides_document? u).mono fun _ _ h => h.spares)) fun x => ?_
  cases x with
  | none => exact hkeeps trivial
  | some x =>
    refine .bind (hkeeps (Task.keeps_read Spares.refl _)) fun held => ?_
    cases held with
    | some a => exact hkeeps trivial
    | none =>
      refine .bind (hkeeps keeps_ensureStarted) fun started => ?_
      cases started with
      | error f => exact hkeeps trivial
      | ok _ =>
        exact .bind (.call _ ((hcompile _ _).mono fun _ _ h => h.analyses)) fun _ => hkeeps trivial

theorem uses_analyze (u : Url) : AnalysisStore.Uses analysesLens (analyze u) :=
  uses_analyzeBy (fun _ _ => (abides_request _ _ _).mono fun _ _ h => h.spares) u

end LanguageServer.Server
