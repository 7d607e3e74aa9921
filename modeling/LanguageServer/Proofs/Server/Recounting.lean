import LanguageServer.Proofs.Server.Held

/-! Surveys under any contract whose worlds tell what has happened: how a document is read, what is
asked of the process, and what happens beside the tasks. -/
namespace LanguageServer.Survey

variable {o : Oracle} {texts : Set String} {q : Server.Questions} {s s' : Server} {u : Url} {t : String}

section Moments

variable {e : Event} {m p : Moment} {lost : Url → Prop} {h : List Moment}

/-- What an event spoils shows before it and after it. -/
theorem Event.spoils_apply (e : Event) (s : Server) (u : Url) :
    e.Spoils (e.apply s) u ↔ e.Spoils s u := by
  cases e with
  | cleared => exact Iff.rfl
  | told e =>
    cases e with
    | changed v version edits =>
      have hopen : ((Server.Event.changed v version edits).apply s).documents.isOpen v =
          s.documents.isOpen v := by
        simp only [Server.Event.apply, Server.changeDocument, DocumentStore.change]
        cases hv : s.documents.documents.find? v with
        | none => rfl
        | some doc =>
          simp [DocumentStore.isOpen, Server.shows, Table.contains_eq_isSome_find?,
            Table.find?_insert, hv]
      exact and_congr_right fun _ => iff_of_eq (congrArg (· = true) hopen)
    | _ => exact Iff.rfl

/-- An event drops what was derived from the files whose reading it spoils. -/
theorem Event.drops (e : Event) (s : Server) :
    ImportGraph.Drops (e.Spoils s) s.graph (e.apply s).graph := by
  cases e with
  | told e => exact e.graph_drops s
  | cleared => exact ImportGraph.drops_clear s.graph

theorem Event.configuration_apply (e : Event) (s : Server) :
    (e.apply s).configuration = s.configuration := by
  cases e with
  | told e => exact e.configuration_apply s
  | cleared => rfl

theorem Event.snapshot?_apply (h : ¬ e.Spoils s u) :
    (e.apply s).documents.snapshot? u = s.documents.snapshot? u := by
  cases e with
  | told e => exact Server.Event.snapshot?_apply h
  | cleared => exact absurd trivial h

/-- How a moment comes after a server: what is derived from some files is dropped, and the others are
shown as they were. -/
structure Moment.Ensues (m : Moment) (lost : Url → Prop) (s : Server) : Prop where
  drops : ImportGraph.Drops lost s.graph m.server.graph
  spoils : ∀ u, m.Spoils u → lost u
  configuration : m.server.configuration = s.configuration
  snapshot : ∀ u, ¬ m.Spoils u → m.server.documents.snapshot? u = s.documents.snapshot? u

/-- A moment in which nothing was told. -/
theorem Apart.ensues (h : Apart s s') : Moment.Ensues ⟨none, s'⟩ (fun _ => False) s where
  drops := h.graph ▸ .refl s.graph
  spoils u := by
    rintro ⟨e, he, -⟩
    cases he
  configuration := h.configuration
  snapshot u _ := congrArg (·.snapshot? u) h.documents

/-- A moment in which something was told. -/
theorem Event.ensues (e : Event) (s : Server) :
    Moment.Ensues ⟨some e, e.apply s⟩ (e.Spoils s) s := by
  have hspoils (u : Url) : Moment.Spoils ⟨some e, e.apply s⟩ u ↔ e.Spoils s u := by
    refine ⟨?_, fun hu => ⟨e, rfl, (e.spoils_apply s u).mpr hu⟩⟩
    rintro ⟨e', he', hu⟩
    cases he'
    exact (e.spoils_apply s u).mp hu
  exact ⟨e.drops s, fun u => (hspoils u).mp, e.configuration_apply s,
    fun u hu => Event.snapshot?_apply (mt (hspoils u).mpr hu)⟩

theorem Moment.Ensues.follows (hm : m.Ensues lost s) (hp : p.Fits s) : m.Follows p where
  configuration := hm.configuration.trans hp.configuration.symm
  generation := hp.generation ▸ hm.drops.generation
  epoch u := by
    have hepoch := hm.drops.epoch u
    simpa only [Moment.epoch, ImportGraph.epoch, hp.epochs] using hepoch
  moved u hu := by
    have hmoved := hm.drops.moved u (hm.spoils u hu)
    simpa only [Moment.epoch, Moment.generation, ImportGraph.epoch, hp.epochs,
      ← hp.generation] using hmoved
  snapshot u hu := (hm.snapshot u hu).trans (congrArg (·.snapshot? u) hp.documents.symm)

/-- A story goes on with a moment that comes after its server. -/
theorem Story.next (hs : Story h) (hcurrent : ∃ p k, h = p :: k ∧ p.Fits s)
    (hm : m.Ensues lost s) : Story (m :: h) := by
  obtain ⟨p, k, rfl, hp⟩ := hcurrent
  exact List.isChain_cons_cons.mpr ⟨hm.follows hp, hs⟩

end Moments

/-- A contract whose worlds tell what has happened: at a wait the server is as in the last moment, as
far as others decide. -/
structure Recounts {ω : Type} (c : Contract ω Server) (history : ω → List Moment) : Prop where
  orderly : c.Orderly
  others_refl : ∀ w, c.others w w
  others : ∀ w v, c.others w v → history w <:+ history v
  current : ∀ w s, c.holds w s → ∃ m h, history w = m :: h ∧ m.Fits s
  abides : ∀ w s s', Server.Abides s s' → c.holds w s → c.holds w s'

namespace Recounts

variable {ω : Type} {c : Contract ω Server} {history : ω → List Moment} (hc : Recounts c history)
  {w : ω} (hs : c.holds w s)
include hc hs

theorem parks {P : ω → Server → Prop} (hP : ∀ v s, c.others w v → c.holds v s → P v s) :
    c.Parks w s P := ⟨w, hc.orderly.own_refl w, hs, hP⟩

/-- A task that leaves alone all that is known of documents. -/
theorem meets_quiet {α : Type} {task : Server.Job α} (htask : task.Keeps Server.Abides)
    {P : α → Prop} (hP : task.Gives P) {Q : α → ω → Server → Prop}
    (hQ : ∀ a v s, P a → c.others w v → c.holds v s → Q a v s) : task.Meets c Q w s := by
  refine htask.meetsFrom_of_gives hc.orderly hc.abides hP hs fun a v s ha hv hs => hQ a v s ha ?_ hs
  obtain rfl | hv := hv
  · exact hc.others_refl v
  · exact hv

/-- A document is read as it is shown, or in two steps from its file. -/
theorem meets_document? (u : Url) {Q : Option Snapshot → ω → Server → Prop}
    (hQ : ∀ x v s look, c.others w v → c.holds v s → history w <:+ look →
      Saw u x look (history v) → Q x v s) : (Server.document? u).Meets c Q w s := by
  unfold Server.document?
  rw [Task.meets_then, Task.meets_read]
  obtain ⟨m, h, hh, hm⟩ := hc.current w s hs
  cases hsnap : s.documents.snapshot? u with
  | some x =>
    refine hQ _ w s (history w) (hc.others_refl w) hs List.suffix_rfl ?_
    rw [hh]
    exact .shown (hm.documents ▸ hsnap)
  | none =>
    have hfirst : m.server.documents.snapshot? u = none := hm.documents ▸ hsnap
    cases hp : u.toFilePath? with
    | none =>
      have hstat (s : Server) : DocumentStore.statOf? s.around.files u = none := by
        simp [DocumentStore.statOf?, hp]
      refine hQ _ w s (history w) (hc.others_refl w) hs List.suffix_rfl ?_
      rw [hh]
      simpa [hstat] using Saw.onDisk (u := u) hfirst List.suffix_rfl List.suffix_rfl
    | some path =>
      rw [Task.meets_then, Task.meets_giveWay]
      refine hc.parks hs fun v s₁ hv hs₁ => ?_
      obtain ⟨p, k, hk, hp₁⟩ := hc.current v s₁ hs₁
      -- others have had their turn since the document was found closed
      have hlook : m :: h <:+ p :: k := hh ▸ hk ▸ hc.others w v hv
      rw [Task.meets_then, Task.meets_read]
      cases hstat : DocumentStore.statOf? s₁.around.files u with
      | none =>
        have hstat : DocumentStore.statOf? p.server.around.files u = none := hp₁.files ▸ hstat
        refine hQ _ v s₁ (history w) hv hs₁ List.suffix_rfl ?_
        rw [hh, hk]
        simpa [hstat] using Saw.onDisk (u := u) hfirst hlook List.suffix_rfl
      | some f =>
        have hstat : DocumentStore.statOf? p.server.around.files u = some f := hp₁.files ▸ hstat
        rw [Task.meets_then, Task.meets_giveWay]
        refine hc.parks hs₁ fun v' s₂ hv' hs₂ => ?_
        obtain ⟨n, l, hl, hn⟩ := hc.current v' s₂ hs₂
        have hlater : p :: k <:+ n :: l := hk ▸ hl ▸ hc.others v v' hv'
        have hsaw := Saw.onDisk (u := u) hfirst hlook hlater
        have hfile : n.server.fileText? u = s₂.around.files.text? path := by
          simp [Server.fileText?, hp, hn.files]
        rw [hstat, Option.bind_some, hfile] at hsaw
        have hv'' := hc.orderly.others_trans _ _ _ hv hv'
        rw [Task.meets_then, Task.meets_read]
        cases ht : s₂.around.files.text? path with
        | none =>
          rw [ht] at hsaw
          exact hQ _ v' s₂ (history w) hv'' hs₂ List.suffix_rfl (hh ▸ hl ▸ hsaw)
        | some t =>
          rw [ht] at hsaw
          exact hQ _ v' s₂ (history w) hv'' hs₂ List.suffix_rfl (hh ▸ hl ▸ hsaw)

/-- The symbols at the top of a document, as the store holds them or as the process tells. -/
theorem meets_topSymbols (ho : o.Answers q) (x : Snapshot)
    {Q : Except Failure (List Symbol) → ω → Server → Prop}
    (hok : ∀ symbols v s, c.others w v → c.holds v s → Tops o x (history w) symbols →
      Q (.ok symbols) v s)
    (herror : ∀ f v s, o.Breaks f → c.others w v → c.holds v s → Q (.error f) v s) :
    (Server.topSymbols x q).Meets c Q w s := by
  unfold Server.topSymbols
  rw [Task.meets_then, Task.meets_read]
  cases ha : s.analyses.get? x.fingerprint with
  | some a =>
    obtain ⟨m, h, hh, hm⟩ := hc.current w s hs
    refine hok _ w s (hc.others_refl w) hs ?_
    rw [hh]
    exact .held (hm.analyses ▸ ha)
  | none =>
    rw [Task.meets_then]
    refine hc.meets_quiet hs (ho.keepsSymbols _ _) (ho.symbols _ _) fun r v s hr hv hs => ?_
    cases r with
    | ok symbols => exact hok _ v s hv hs (.parsed hr)
    | error f =>
      cases hf : f.needsRestart with
      | true =>
        simp only [hf, if_true, Task.meets_pure]
        exact herror f v s ⟨hf, x.text, Server.filename x.url, .inr hr⟩ hv hs
      | false =>
        simp only [hf, Bool.false_eq_true, if_false, Task.meets_pure]
        exact hok _ v s hv hs (.failed hf hr)

omit hc hs in
/-- A flight for the imports of a text tells what was found of them after it was asked. -/
theorem meets_askImports {H : Hangar ω Server Moment (Url × UInt64) ImportSet}
    (hc : Recounts c H.history) (hH : H.Serves c) (hflights : H.flights = Server.importFlights)
    (hmeans : H.means = fun x told => Learns o texts x.key.1 x.key.2 told) (hs : c.holds w s)
    (ho : o.Answers q) (u : Url) (ht : t ∈ texts) {Q : Except Failure ImportSet → ω → Server → Prop}
    (hQ : ∀ r v s told, c.others w v → c.holds v s → H.history w <:+ told → told <:+ H.history v →
      Learns o texts u (Hash.ofText t) told r → Q r v s) :
    (Server.askImports u t q).Meets c Q w s := by
  rw [Server.askImports, ← hflights]
  refine Hangar.meets_share hc.orderly hH hs (fun x hx _ v s hs _ hbegun => ?_)
    fun r v s x told hs hv htold hr hflew => ?_
  · refine Task.MeetsFrom.bind ?_
    refine (ho.keepsImports _ _).meetsFrom_of_gives hc.orderly hc.abides
      (ho.imports _ _) hs fun r v' s hr hv' hs waited => ?_
    have hbegun : x ∈ (H.book.get v').begun := by
      obtain rfl | hv' := hv'
      · exact hbegun
      · exact (hH.others _ _ hv').2.begun.subset hbegun
    rw [hmeans]
    cases r with
    | error f =>
      refine ⟨hs, hbegun, ?_⟩
      cases hf : f.needsRestart with
      | true => exact .inl ⟨hf, _, _, .inl hr⟩
      | false => exact .inr ⟨hf, by rw [hx]; exact .failed ht rfl hf hr⟩
    | ok edges =>
      obtain ⟨m, k, hk, hm⟩ := hc.current _ _ hs
      -- the server of the last moment that was told locates files as this one does
      have hlocate : s.locateEdge u = m.server.locateEdge u := by
        funext e
        simp only [Server.locateEdge, hm.configuration, hm.files]
      intro _
      refine ⟨hs, hbegun, ?_⟩
      change Learns o texts x.key.1 x.key.2 (H.history v') (.ok ⟨_, edges.map (s.locateEdge u)⟩)
      rw [hx, hk, hlocate]
      exact .found ht rfl hr
  · rw [hmeans] at hr
    have hr : Learns o texts x.key.1 x.key.2 told r := hr
    rw [hflew.isOf] at hr
    exact hQ r v s told hv hs hflew.landed htold hr

end Recounts

section Run

variable {ω : Type} {fits : Moment → Prop} {c : Contract ω Survey} {history : ω → List Moment}
  {s₀ : Server} {h : List Moment} {m : Machine Survey}

theorem Run.mem_start (hr : Run q texts s₀ h m) : ⟨none, s₀⟩ ∈ h := by
  induction hr with
  | start => exact List.mem_singleton_self _
  | call _ _ _ ih => exact ih
  | beside _ _ ih => exact ih
  | event _ _ ih => exact List.mem_cons_of_mem _ ih
  | other _ _ _ _ ih => exact List.mem_cons_of_mem _ ih
  | move _ _ _ ih => exact List.mem_cons_of_mem _ ih

/-- A contract that the tasks of a survey keep to, and that goes on holding when a moment is added. -/
structure Governs (q : Server.Questions) (texts : Set String) (fits : Moment → Prop)
    (c : Contract ω Survey) (history : ω → List Moment) : Prop where
  orderly : c.Orderly
  recounts : Recounts (c.within complement.whole) (history ·.1)
  own : ∀ w v, c.own w v → history v = history w
  calls : ∀ w x, (∀ t, x.text = some t → t ∈ texts) → c.Ready w (call q (history w) x)
  next : ∀ w o m lost, c.holds w o → m.Ensues lost o.server → fits m →
    ∃ v, c.others w v ∧ history v = m :: history w ∧ c.holds v ⟨m.server, o.answers⟩

/-- A moment is added at which the server is as others have left it. -/
theorem Governs.binds_cons (hc : Governs q texts fits c history) {w : ω} (hw : c.Binds w m)
    {p : Moment} {lost : Url → Prop} (hp : p.Ensues lost m.state.server) (hfits : fits p)
    (now : Instant) : ∃ v, history v = p :: history w ∧
      c.Binds v { m with state := ⟨p.server, m.state.answers⟩, now } := by
  obtain ⟨v, hv, hh, hs⟩ := hc.next w m.state p lost hw.holds hp hfits
  exact ⟨v, hh, hw.others hc.orderly hv hs now⟩

/-- In every run all tasks keep to the contract, and what happens beside them leaves it true. -/
theorem Governs.binds (hc : Governs q texts fits c history) (hr : Run q texts s₀ h m)
    (hstart : ∃ w, history w = [⟨none, s₀⟩] ∧ c.holds w ⟨s₀, []⟩) (hfits : ∀ p ∈ h, fits p) :
    ∃ w, history w = h ∧ c.Binds w m := by
  induction hr with
  | start =>
    obtain ⟨w, hw, hs⟩ := hstart
    exact ⟨w, hw, hs, by simp [Machine.start]⟩
  | call x _ ht ih =>
    obtain ⟨w, rfl, hw⟩ := ih hfits
    exact ⟨w, rfl, hw.spawn (hc.calls w x ht)⟩
  | @beside h m t _ ht ih =>
    obtain ⟨w, rfl, hw⟩ := ih hfits
    refine ⟨w, rfl, hw.spawn fun v p hv hs => ?_⟩
    refine Task.MeetsFrom.zoom (s := p.server) (r := p.answers) complement ?_
    exact ht.meetsFrom (w := (v, p.answers)) (s := p.server) hc.recounts.orderly hc.recounts.abides hs
      fun _ v s _ hs => ⟨v.1, hc.orderly.own_refl v.1, hs⟩
  | @event h m e _ ih =>
    obtain ⟨w, rfl, hw⟩ := ih fun p hp => hfits p (List.mem_cons_of_mem _ hp)
    exact hc.binds_cons hw (e.ensues m.state.server) (hfits _ List.mem_cons_self) m.now
  | @other h m s t _ hs ih =>
    obtain ⟨w, rfl, hw⟩ := ih fun p hp => hfits p (List.mem_cons_of_mem _ hp)
    exact hc.binds_cons hw hs.ensues (hfits _ List.mem_cons_self) t
  | @move h m n id _ hstep ih =>
    obtain ⟨w, rfl, hw⟩ := ih fun p hp => hfits p (List.mem_cons_of_mem _ hp)
    -- a move adds nothing to the history, so the moment after it is added here
    have hrefl := hc.recounts.others_refl (w, m.state.answers)
    obtain ⟨v, hv, hn⟩ := hw.step hc.orderly hrefl hstep
    have hsame : Apart n.state.server n.state.server := ⟨rfl, rfl, rfl, rfl⟩
    rw [← hc.own w v hv]
    exact hc.binds_cons hn hsame.ensues (hfits _ List.mem_cons_self) n.now

end Run
end LanguageServer.Survey
