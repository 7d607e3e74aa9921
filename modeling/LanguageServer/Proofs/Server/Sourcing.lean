import LanguageServer.Proofs.Server.Tracing

/-! Whence the imports come that are held for documents, if texts are asked about only as they were
read of their documents. A call reads a document first; when the document is noted, after a wait for
the process or by a flight that goes on later, it may have changed. -/
namespace LanguageServer.Survey

variable {o : Oracle} {q : Server.Questions} {u : Url} {t : String} {s s' s₀ : Server}
  {h h' look noted : List Moment}

/-- A text was read of a document. -/
def WasRead (u : Url) (t : String) (h : List Moment) : Prop :=
  ∃ x look seen, Saw u (some x) look seen ∧ seen <:+ h ∧ x.text = t

theorem WasRead.of_suffix (ht : WasRead u t h) (hh : h <:+ h') : WasRead u t h' := by
  obtain ⟨x, look, seen, hsaw, hseen, ht⟩ := ht
  exact ⟨x, look, seen, hsaw, hseen.trans hh, ht⟩

/-- All texts in the queue of a walk were read of their documents. -/
def QueuesRead (walk : WaterfallWalk) (h : List Moment) : Prop :=
  ∀ x ∈ walk.queue, WasRead x.file x.text h

namespace QueuesRead

variable {walk next : WaterfallWalk} {file : Url} {via : ImportKind}

theorem start (ht : WasRead u t h) (limit : Nat) : QueuesRead (.start u t limit) h := by
  simpa [QueuesRead, WaterfallWalk.start] using ht

theorem of_suffix (hw : QueuesRead walk h) (hh : h <:+ h') : QueuesRead walk h' :=
  fun x hx => (hw x hx).of_suffix hh

theorem expand (hw : QueuesRead walk h) {x : WaterfallWalk.Source}
    (hev : walk.next = .expand x next) : WasRead x.file x.text h ∧ QueuesRead next h := by
  have hnext := walk.next_spec
  rw [hev] at hnext
  exact ⟨hw x (hnext.1.subset List.mem_cons_self),
    fun y hy => hw y (hnext.1.subset (List.mem_cons_of_mem _ hy))⟩

theorem visit (hw : QueuesRead walk h) (hev : walk.next = .visit file via next) :
    QueuesRead next h := by
  have hnext := walk.next_spec
  rw [hev] at hnext
  exact fun y hy => hw y (hnext.1.subset hy)

theorem enter (hw : QueuesRead walk h) (ht : WasRead file t h) (via : ImportKind)
    (symbols : List Symbol) : QueuesRead (walk.enter file via t symbols) h := fun y hy => by
  rw [WaterfallWalk.queue_enter] at hy
  obtain hy | hy := List.mem_append.mp hy
  · exact hw y hy
  · cases List.mem_singleton.mp hy
    exact ht

end QueuesRead

/-- What was read of an open document is what the editor shows of it, unless it was changed since. -/
theorem Saw.eq_of_unspoiled {m : Moment} {k seen : List Moment} {x y : Snapshot}
    (hx : Saw u (some x) look seen) (hs : Story (m :: k)) (hseen : seen <:+ m :: k)
    (hcounts : Unspoiled u look (m :: k)) (hy : m.server.documents.snapshot? u = some y) :
    x = y := by
  generalize hz : some x = z at hx
  cases hx with
  | shown hsnapshot =>
    have hnow := hs.snapshot?_eq hcounts hseen
    rw [hy, hsnapshot, ← hz] at hnow
    exact (Option.some.inj hnow).symm
  | onDisk hnone hlook hlater =>
    have hnow := hs.snapshot?_eq hcounts ((hlook.trans hlater).trans hseen)
    rw [hy, hnone] at hnow
    cases hnow

variable (o) in
/-- How imports came to be held for a document: a snapshot of it was taken, and later the document was
noted. What a text of that hash imports was told after the noting, and since the noting the document
has not changed. -/
structure Sourced (h : List Moment) (u : Url) (set : ImportSet) (x : Snapshot)
    (look noted : List Moment) : Prop where
  saw : ∃ seen, Saw u (some x) look seen ∧ seen <:+ noted
  hash : set.hash = Hash.ofText x.text
  told : ∃ told, noted <:+ told ∧ told <:+ h ∧ Extracted o Set.univ u set.hash (some set) told
  unspoiled : Unspoiled u noted h

theorem Sourced.cons {set : ImportSet} {x : Snapshot} (hx : Sourced o h u set x look noted)
    {m : Moment} (hm : ¬ m.Spoils u) : Sourced o (m :: h) u set x look noted := by
  obtain ⟨told, hlater, htold, hset⟩ := hx.told
  exact { hx with
    told := ⟨told, hlater, htold.trans (List.suffix_cons _ _), hset⟩
    unspoiled := hx.unspoiled.cons hm }

/-- What has happened in a survey, and the book of the extractions of imports. -/
structure Account where
  history : List Moment
  extractions : Logbook Moment (Url × UInt64)

/-- What may become of an account. -/
structure Account.Grows (w v : Account) : Prop where
  history : w.history <:+ v.history
  extractions : w.extractions.Grows w.history v.extractions

theorem Account.Grows.refl (w : Account) : w.Grows w := ⟨List.suffix_rfl, .refl _ _⟩

theorem Account.Grows.trans {u v w : Account} (h : u.Grows v) (h' : v.Grows w) : u.Grows w where
  history := h.history.trans h'.history
  extractions := h.extractions.trans h'.extractions h.history

variable (o) in
/-- What is true between two moves of a server whose imports are all accounted for. -/
structure Accounted (w : Account) (s : Server) : Prop where
  current : ∃ now older, w.history = now :: older ∧ now.Fits s
  story : Story w.history
  extractions : w.extractions.Fits (·.server.graph.importFlights)
    (fun x told => Learns o Set.univ x.key.1 x.key.2 told) w.history s.graph.importFlights
  held : ∀ e ∈ s.graph.imports.entries.pairs,
    ∃ x look noted, Sourced o w.history e.1 e.2.value x look noted

section Accounted

variable {w : Account}

theorem Accounted.abides (hs : Accounted o w s) (h : Server.Abides s s') : Accounted o w s' where
  current := by
    obtain ⟨now, older, hh, hnow⟩ := hs.current
    exact ⟨now, older, hh, hnow.abides h⟩
  story := hs.story
  extractions := h.graph.symm ▸ hs.extractions
  held := h.graph.symm ▸ hs.held

/-- A graph that holds what was held, and what is accounted for besides. -/
theorem Accounted.regraph (hs : Accounted o w s) {g : ImportGraph}
    (hgeneration : g.generation = s.graph.generation) (hepochs : g.epochs = s.graph.epochs)
    (hflights : g.importFlights = s.graph.importFlights)
    (hheld : ∀ e ∈ g.imports.entries.pairs, e ∈ s.graph.imports.entries.pairs ∨
      ∃ x look noted, Sourced o w.history e.1 e.2.value x look noted) :
    Accounted o w { s with graph := g } where
  current := by
    obtain ⟨now, older, hh, hnow⟩ := hs.current
    exact ⟨now, older, hh, hnow.regraph hgeneration hepochs⟩
  story := hs.story
  extractions := hflights.symm ▸ hs.extractions
  held e he := (hheld e he).elim (hs.held e) id

/-- A moment is added, and what is held of some files is dropped. -/
theorem Accounted.next {m : Moment} {lost : Url → Prop} (hs : Accounted o w s)
    (hm : m.Ensues lost s) : Accounted o { w with history := m :: w.history } m.server where
  current := ⟨m, w.history, rfl, .refl m⟩
  story := hs.story.next hs.current hm
  extractions := hm.drops.importFlights.symm ▸ hs.extractions.next hm.drops.importFlights
  held e he := by
    obtain ⟨he, hlost⟩ := hm.drops.imports e he
    obtain ⟨x, look, noted, hx⟩ := hs.held e he
    exact ⟨x, look, noted, hx.cons fun hu => hlost (hm.spoils _ hu)⟩

theorem Accounted.start (hidle : s₀.graph.importFlights.IsIdle)
    (hnone : s₀.graph.imports.entries.pairs = []) :
    Accounted o ⟨[⟨none, s₀⟩], ⟨[], []⟩⟩ s₀ where
  current := ⟨_, [], rfl, .refl _⟩
  story := List.isChain_singleton _
  extractions := .idle hidle
  held := by simp [hnone]

end Accounted

variable (o) in
/-- Tasks enter the extractions that they begin and land, and everything else is added to the
history. -/
def accounting : Contract Account Survey where
  holds w p := Accounted o w p.server
  own w v := v.history = w.history ∧ w.Grows v
  others := Account.Grows
  stalls _ := True
  isTotal := False
  isShared := True

variable (o) in
/-- The accounting as it binds a task on the server. -/
abbrev serverAccounting : Contract (Account × List Answer) Server :=
  (accounting o).within complement.whole

theorem accounting_orderly : (accounting o).Orderly where
  shared := trivial
  endless := id
  stalls _ := trivial
  own_refl w := ⟨rfl, .refl w⟩
  own_trans _ _ _ hv hw := ⟨hw.1.trans hv.1, hv.2.trans hw.2⟩
  others_trans _ _ _ hv hw := hv.trans hw
  others_of_own _ _ _ hv hw := hv.2.trans hw

theorem serverAccounting_recounts : Recounts (serverAccounting o) (·.1.history) where
  orderly := accounting_orderly.within _
  others_refl w := .refl w.1
  others _ _ hv := hv.history
  current _ _ hs := hs.current
  abides _ _ _ h hs := hs.abides h

variable (o) in
/-- The extractions of imports, with their book in an account. -/
def accountedExtractions :
    Hangar (Account × List Answer) Server Moment (Url × UInt64) ImportSet where
  flights := Server.importFlights
  book := ⟨(·.1.extractions), fun l w => ({ w.1 with extractions := l }, w.2)⟩
  history w := w.1.history
  table m := m.server.graph.importFlights
  means x told := Learns o Set.univ x.key.1 x.key.2 told

theorem accountedExtractions_serves : (accountedExtractions o).Serves (serverAccounting o) where
  lawful := ⟨fun _ _ => rfl, fun _ => rfl, fun _ _ _ => rfl⟩
  book_set _ _ := rfl
  history_set _ _ := rfl
  fits _ _ hs := hs.extractions
  put _ _ _ _ hs hl := { hs with
    current := hs.current.imp fun _ h => h.imp fun _ h => ⟨h.1, { h.2 with }⟩
    extractions := hl }
  own _ _ hl := ⟨⟨rfl, List.suffix_rfl, hl⟩, rfl⟩
  others _ _ hv := ⟨hv.history, hv.extractions⟩

section Meets

variable {w : Account × List Answer} (ho : o.Answers q) (hs : (serverAccounting o).holds w s)
include ho hs

omit ho in
/-- What is held of imports is looked at; at most it expires. -/
theorem holds_importsOf (now : Instant) (u : Url) (hash : UInt64) :
    (serverAccounting o).holds w { s with graph := (s.graph.importsOf now u hash).2 } :=
  hs.regraph rfl rfl rfl fun _ he => .inl (Timed.Cache.mem_settle he)

/-- The imports of a file on the way are kept for nobody. -/
theorem Accounted.meets_importsOnTheWay (u : Url) (t : String)
    {Q : Except Failure ImportSet → Account × List Answer → Server → Prop}
    (hQ : ∀ r v s, (serverAccounting o).others w v → (serverAccounting o).holds v s → Q r v s) :
    (Server.importsOnTheWay u t q).Meets (serverAccounting o) Q w s := by
  rw [Server.importsOnTheWay, Task.meets_then, Server.meets_timed]
  intro now
  have hs' := holds_importsOf hs (s.time now) u (Hash.ofText t)
  simp only [Server.graphLens]
  cases (s.graph.importsOf (s.time now) u (Hash.ofText t)).1 with
  | some set => exact hQ _ w _ (.refl w.1) hs'
  | none =>
    exact serverAccounting_recounts.meets_askImports accountedExtractions_serves rfl rfl hs' ho u
      (Set.mem_univ t) fun r v s _ hv hs _ _ _ => hQ r v s hv hs

/-- The imports that are kept for a document come of a text that was read of it. -/
theorem Accounted.meets_importsOf (u : Url) (ht : WasRead u t w.1.history)
    {Q : Except Failure ImportSet → Account × List Answer → Server → Prop}
    (hQ : ∀ r v s, (serverAccounting o).others w v → (serverAccounting o).holds v s → Q r v s) :
    (Server.importsOf u t q).Meets (serverAccounting o) Q w s := by
  rw [Server.importsOf, Task.meets_then, Server.meets_timed]
  intro now
  have hs' := holds_importsOf hs (s.time now) u (Hash.ofText t)
  simp only [Server.graphLens]
  cases (s.graph.importsOf (s.time now) u (Hash.ofText t)).1 with
  | some set => exact hQ _ w _ (.refl w.1) hs'
  | none =>
    obtain ⟨hnotes, hu⟩ := serverAccounting_recounts.notes_root hs' u
    simp only [Server.record, Task.meets_then, Task.meets_read]
    refine serverAccounting_recounts.meets_askImports accountedExtractions_serves rfl rfl hs' ho u
      (Set.mem_univ t) fun r v s told hv hs hlater htold hr => ?_
    cases r with
    | error f => exact hQ _ v s hv hs
    | ok set =>
      rw [Task.meets_then, Server.meets_timed]
      refine fun now => hQ _ v _ hv (hs.regraph rfl rfl rfl fun e he => ?_)
      refine (ImportGraph.mem_storeIfUnchanged he).imp_right fun hstored => ?_
      obtain ⟨hsame, rfl⟩ := hstored
      obtain ⟨x, look, seen, hsaw, hseen, rfl⟩ := ht
      obtain ⟨n, l, hl, hn⟩ := hs.current
      have hnoted := (hnotes.noted hu (unspoiled_of_suffix List.suffix_rfl)).of_suffix hv.history
      have hholding := hnoted.holding (hnotes.of_suffix hv.history) hl hs.story hn.generation
        hn.epochs hsame
      exact ⟨x, look, w.1.history, ⟨seen, hsaw, hseen⟩, hr.hash, ⟨told, hlater, htold, hr.hash ▸ hr⟩,
        hholding.2⟩

/-- Only the imports of the root of a walk are kept. -/
theorem Accounted.meets_importsFrom (root u : Url) (ht : WasRead u t w.1.history) {α : Type}
    {k : Except Failure ImportSet → Server.Job α} {Q : α → Account × List Answer → Server → Prop}
    (hk : ∀ r v s, (serverAccounting o).others w v → (serverAccounting o).holds v s →
      (k r).Meets (serverAccounting o) Q v s) :
    (if u = root then Server.importsOf u t q >>= k
      else Server.importsOnTheWay u t q >>= k).Meets (serverAccounting o) Q w s := by
  split
  · exact (Task.meets_then _ _ _).mpr (Accounted.meets_importsOf ho hs u ht hk)
  · exact (Task.meets_then _ _ _).mpr (Accounted.meets_importsOnTheWay ho hs u t hk)

/-- A walk follows the imports of texts that were read of their documents. -/
theorem Accounted.meets_walkWaterfall (root : Url) (ht : WasRead root t w.1.history) (limit : Nat)
    {Q : Except Failure (List WaterfallSymbol × ReadSet) → Account × List Answer → Server → Prop}
    (hQ : ∀ r v s, (serverAccounting o).others w v → (serverAccounting o).holds v s → Q r v s) :
    (Server.walkWaterfall root t limit q).Meets (serverAccounting o) Q w s := by
  simp only [Server.walkWaterfall, Server.record, Task.meets_then, Task.meets_read]
  refine Task.Meets.repeatFrom (fun b v s => (serverAccounting o).holds v s ∧ w.1.Grows v.1 ∧
    QueuesRead b.1 v.1.history) (fun _ => 0) ⟨hs, .refl _, .start ht limit⟩ ?_
  rintro ⟨walk, reads⟩ v s ⟨hs, hwv, hqueue⟩
  refine serverAccounting_recounts.parks hs fun v₁ s₁ hv hs₁ => ?_
  replace hwv := hwv.trans hv
  replace hqueue := hqueue.of_suffix hv.history
  cases hev : walk.next with
  | finished found => exact hQ _ v₁ s₁ hwv hs₁
  | expand x next =>
    obtain ⟨hx, hnext⟩ := hqueue.expand hev
    refine Accounted.meets_importsFrom ho hs₁ root x.file hx fun r v₂ s₂ hv hs₂ => ?_
    replace hwv := hwv.trans hv
    replace hnext := hnext.of_suffix hv.history
    cases r with
    | ok set => exact ⟨⟨hs₂, hwv, hnext⟩, False.elim⟩
    | error f =>
      by_cases hends : x.file = root ∨ f.needsRestart = true
      · simp only [hends, if_true, Task.meets_pure]
        exact hQ _ v₂ s₂ hwv hs₂
      · simp only [hends, if_false, Task.meets_pure]
        exact ⟨⟨hs₂, hwv, hnext⟩, False.elim⟩
  | visit file via next =>
    simp only [Task.meets_then, Task.meets_read]
    refine serverAccounting_recounts.meets_document? hs₁ file fun x v₂ s₂ look hv hs₂ _ hsaw => ?_
    replace hwv := hwv.trans hv
    have hnext := (hqueue.visit hev).of_suffix hv.history
    cases x with
    | none => exact ⟨⟨hs₂, hwv, hnext⟩, False.elim⟩
    | some x =>
      have hx : WasRead file x.text v₂.1.history := ⟨x, look, _, hsaw, List.suffix_rfl, rfl⟩
      rw [Task.meets_then]
      refine serverAccounting_recounts.meets_topSymbols hs₂ ho x (fun symbols v₃ s₃ hv' hs₃ _ => ?_)
        fun f v₃ s₃ _ hv' hs₃ => hQ _ v₃ s₃ (hwv.trans hv') hs₃
      exact ⟨⟨hs₃, hwv.trans hv', (hnext.enter hx via symbols).of_suffix hv'.history⟩, False.elim⟩

/-- A search for a cycle keeps the imports of its root only. -/
theorem Accounted.meets_walkCycle (root : Url) (ht : WasRead root t w.1.history)
    {Q : Except Failure (CycleVerdict × ReadSet) → Account × List Answer → Server → Prop}
    (hQ : ∀ r v s, (serverAccounting o).others w v → (serverAccounting o).holds v s → Q r v s) :
    (Server.walkCycle root t q).Meets (serverAccounting o) Q w s := by
  simp only [Server.walkCycle, Server.record, Task.meets_then, Task.meets_read]
  refine Accounted.meets_importsOf ho hs root ht fun r v s hv hs => ?_
  cases r with
  | error f => exact hQ _ v s hv hs
  | ok set =>
    refine Task.Meets.repeatFrom (fun _ v s => (serverAccounting o).holds v s ∧ w.1.Grows v.1)
      (fun _ => 0) ⟨hs, hv⟩ ?_
    rintro ⟨walk, reads⟩ v s ⟨hs, hwv⟩
    refine serverAccounting_recounts.parks hs fun v₁ s₁ hv hs₁ => ?_
    replace hwv := hwv.trans hv
    cases hev : walk.next with
    | verdict verdict => exact hQ _ v₁ s₁ hwv hs₁
    | visit file next =>
      simp only [Task.meets_then, Task.meets_read]
      refine serverAccounting_recounts.meets_document? hs₁ file fun x v₂ s₂ _ hv hs₂ _ _ => ?_
      replace hwv := hwv.trans hv
      cases x with
      | none => exact ⟨⟨hs₂, hwv⟩, False.elim⟩
      | some x =>
        rw [Task.meets_then]
        refine Accounted.meets_importsOnTheWay ho hs₂ file x.text fun r v₃ s₃ hv' hs₃ => ?_
        cases r with
        | ok set => exact ⟨⟨hs₃, hwv.trans hv'⟩, False.elim⟩
        | error f =>
          cases hf : f.needsRestart with
          | true =>
            simp only [hf, if_true, Task.meets_pure]
            exact hQ _ v₃ s₃ (hwv.trans hv') hs₃
          | false =>
            simp only [hf, Bool.false_eq_true, if_false, Task.meets_pure]
            exact ⟨⟨hs₃, hwv.trans hv'⟩, False.elim⟩

/-- Whatever walk has been under way for a text that was read of a document. -/
theorem Accounted.meets_waterfallOf (u : Url) (ht : WasRead u t w.1.history) (depth : Nat)
    {Q : Except Failure Waterfall → Account × List Answer → Server → Prop}
    (hQ : ∀ r v s, (serverAccounting o).others w v → (serverAccounting o).holds v s → Q r v s) :
    (Server.waterfallOf u t depth q).Meets (serverAccounting o) Q w s := by
  rw [Server.waterfallOf, Task.meets_then, Server.meets_timed]
  intro now
  have hs' : (serverAccounting o).holds w
      { s with graph := (s.graph.waterfallOf (s.time now) u depth (Hash.ofText t)).2 } :=
    hs.regraph rfl rfl rfl fun _ he => .inl he
  simp only [Server.graphLens]
  cases (s.graph.waterfallOf (s.time now) u depth (Hash.ofText t)).1 with
  | some found => exact hQ _ w _ (.refl w.1) hs'
  | none =>
    have hput (w : Account × List Answer) (s : Server) (flights) (hs : (serverAccounting o).holds w s) :
        (serverAccounting o).holds w (Server.waterfallFlights.set flights s) :=
      hs.regraph rfl rfl rfl fun _ he => .inl he
    refine FlightTable.meets_join_await serverAccounting_recounts.orderly hput hs'
      (fun v s hv hs => ?_) hQ
    have hwalk : (Server.walkWaterfall u t depth q).MeetsFrom (serverAccounting o) true
        (fun _ v s => (serverAccounting o).holds v s) v s :=
      Accounted.meets_walkWaterfall ho hs u (ht.of_suffix hv.history) depth fun _ _ _ _ hs => hs
    refine Task.MeetsFrom.bind (hwalk.mono fun r v s hs waited => ?_)
    cases r with
    | error f => exact hs
    | ok p => exact fun now => hs.regraph rfl rfl rfl fun _ he => .inl he

theorem Accounted.meets_cycleOf (u : Url) (ht : WasRead u t w.1.history)
    {Q : Except Failure CycleVerdict → Account × List Answer → Server → Prop}
    (hQ : ∀ r v s, (serverAccounting o).others w v → (serverAccounting o).holds v s → Q r v s) :
    (Server.cycleOf u t q).Meets (serverAccounting o) Q w s := by
  rw [Server.cycleOf, Task.meets_then, Server.meets_timed]
  intro now
  have hs' : (serverAccounting o).holds w
      { s with graph := (s.graph.cycleOf (s.time now) u (Hash.ofText t)).2 } :=
    hs.regraph rfl rfl rfl fun _ he => .inl he
  simp only [Server.graphLens]
  cases (s.graph.cycleOf (s.time now) u (Hash.ofText t)).1 with
  | some verdict => exact hQ _ w _ (.refl w.1) hs'
  | none =>
    have hput (w : Account × List Answer) (s : Server) (flights) (hs : (serverAccounting o).holds w s) :
        (serverAccounting o).holds w (Server.cycleFlights.set flights s) :=
      hs.regraph rfl rfl rfl fun _ he => .inl he
    refine FlightTable.meets_join_await serverAccounting_recounts.orderly hput hs'
      (fun v s hv hs => ?_) hQ
    have hwalk : (Server.walkCycle u t q).MeetsFrom (serverAccounting o) true
        (fun _ v s => (serverAccounting o).holds v s) v s :=
      Accounted.meets_walkCycle ho hs u (ht.of_suffix hv.history) fun _ _ _ _ hs => hs
    refine Task.MeetsFrom.bind (hwalk.mono fun r v s hs waited => ?_)
    cases r with
    | error f => exact hs
    | ok p => exact fun now => hs.regraph rfl rfl rfl fun _ he => .inl he

theorem Accounted.meets_askText (u : Url) (ht : WasRead u t w.1.history) (what : What)
    {Q : Except Failure what.Value → Account × List Answer → Server → Prop}
    (hQ : ∀ r v s, (serverAccounting o).others w v → (serverAccounting o).holds v s → Q r v s) :
    (askText q u t what).Meets (serverAccounting o) Q w s := by
  cases what with
  | imports => exact Accounted.meets_importsOf ho hs u ht hQ
  | waterfall depth =>
    rw [askText, Task.meets_then, Task.meets_read]
    exact Accounted.meets_waterfallOf ho hs u ht _ hQ
  | cycle => exact Accounted.meets_cycleOf ho hs u ht hQ

/-- A question about a document is one about a text that was read of it. -/
theorem Accounted.meets_ask (u : Url) (what : What) :
    (ask q ⟨u, none, what⟩).Meets (serverAccounting o)
      (fun _ v s => w.1.Grows v.1 ∧ (serverAccounting o).holds v s) w s := by
  rw [ask, askDocument_eq, Server.withDocument, Task.meets_then]
  refine serverAccounting_recounts.meets_document? hs u fun x v s look hv hs _ hsaw => ?_
  cases x with
  | none => exact ⟨hv, hs⟩
  | some x =>
    rw [Task.meets_then]
    refine serverAccounting_recounts.meets_quiet hs Server.abides_ensureStarted (Task.gives_true _)
      fun started v' s _ hv' hs => ?_
    cases started with
    | error f => exact ⟨hv.trans hv', hs⟩
    | ok _ =>
      dsimp only
      rw [Task.meets_then]
      refine Accounted.meets_askText ho hs u ⟨x, look, _, hsaw, hv'.history, rfl⟩ what
        fun r v'' s hv'' hs => ?_
      exact ⟨(hv.trans hv').trans hv'', hs⟩

end Meets

/-- Calls about documents keep to the accounting, and a moment that is added leaves it true. -/
theorem accounting_governs (ho : o.Answers q) :
    Governs q ∅ (fun _ => True) (accounting o) Account.history where
  orderly := accounting_orderly
  recounts := serverAccounting_recounts
  own _ _ hv := hv.1
  calls w x ht := by
    obtain ⟨u, text, what⟩ := x
    obtain rfl : text = none := Option.eq_none_iff_forall_not_mem.mpr ht
    intro v p hv hs
    have hask : (ask q ⟨u, none, what⟩).MeetsFrom (serverAccounting o) true
        (fun _ v' s => v.Grows v'.1 ∧ (serverAccounting o).holds v' s) (v, p.answers) p.server := by
      have h := Accounted.meets_ask (w := (v, p.answers)) (s := p.server) ho hs u what
      cases what <;> exact h
    refine Task.MeetsFrom.bind (Task.MeetsFrom.zoom (s := p.server) (r := p.answers) complement ?_)
    exact hask.mono fun r v' s ⟨_, hs⟩ waited now => ⟨v'.1, accounting_orderly.own_refl v'.1, hs⟩
  next w _ m _ hs hm _ := ⟨{ w with history := m :: w.history },
    ⟨List.suffix_cons _ _, .refl _ _⟩, rfl, hs.next hm⟩

section Run

variable {m : Machine Survey} {now : Instant} {set : ImportSet}

/-- The imports that are held for a document are those of a text that was read of it, told when the
document was last noted or later. They are those of the text that an editor has open, unless the
document was changed after it was read and before it was noted. -/
theorem Run.imports_of_open (ho : o.Answers q) (hidle : s₀.graph.importFlights.IsIdle)
    (hnone : s₀.graph.imports.entries.pairs = []) (hr : Run q ∅ s₀ h m)
    (hset : (m.state.server.graph.imports.get now u).1 = some set) :
    ∃ x look noted, Sourced o h u set x look noted ∧
      ∀ y, m.state.server.documents.snapshot? u = some y →
        set.hash = Hash.ofText y.text ∨ ¬ Unspoiled u look noted := by
  obtain ⟨w, rfl, hw⟩ := (accounting_governs ho).binds hr ⟨_, rfl, .start hidle hnone⟩
    fun _ _ => trivial
  obtain ⟨e, he, rfl⟩ := Timed.Cache.mem_of_find? hset
  obtain ⟨x, look, noted, hx⟩ := hw.holds.held _ he
  refine ⟨x, look, noted, hx, fun y hy => or_iff_not_imp_right.mpr fun hsame => ?_⟩
  have hcounts : Unspoiled u look noted := not_not.mp hsame
  obtain ⟨n, k, hk, hn⟩ := hw.holds.current
  obtain ⟨seen, hsaw, hseen⟩ := hx.saw
  obtain ⟨told, hlater, htold, -⟩ := hx.told
  have hnoted := hlater.trans htold
  have hnow : Unspoiled u look w.history := hcounts.trans hx.unspoiled List.suffix_rfl hnoted
  have hstory := hw.holds.story
  rw [hk] at hstory hnoted hnow
  have hxy : x = y := hsaw.eq_of_unspoiled hstory (hseen.trans hnoted) hnow (hn.documents ▸ hy)
  exact hxy ▸ hx.hash

/-! A run in which imports of an old text are held: a call for the symbols that a document sees has
read it and begun a flight, and the document is edited before the flight first goes on. -/

/-- The document `a` is edited between the move of the call and those of its flight. -/
def outrunning : List Cue :=
  [.event (.told (.opened (fileUrl "/a") 1 "old")), .ask ⟨fileUrl "/a", none, .waterfall (some 3)⟩,
    .move 0, .event (.told (.changed (fileUrl "/a") 2 [⟨none, "new"⟩]))] ++ [1, 1, 2, 1].map .move

/-- The editor has `new` open, and the imports of `old` are held for it. -/
theorem Run.imports_of_open_outrun : ∃ (r : Stage) (set : ImportSet) (y : Snapshot),
    Run (scripted fun _ => []) ∅ beginner r.1 r.2 ∧
    (r.2.state.server.graph.imports.get ⟨0⟩ (fileUrl "/a")).1 = some set ∧
    r.2.state.server.documents.snapshot? (fileUrl "/a") = some y ∧
    y.text = "new" ∧ set.hash = Hash.ofText "old" ∧
    ∃ x look noted, Sourced (.scripted fun _ => []) r.1 (fileUrl "/a") set x look noted ∧
      ¬ Unspoiled (fileUrl "/a") look noted := by
  have hplays : (outrunning.foldlM (Cue.play (scripted fun _ => [])) (opening beginner)).map (fun r =>
      (r.2.state.server.graph.imports.get ⟨0⟩ (fileUrl "/a")).1.any (·.hash == Hash.ofText "old") &&
        (r.2.state.server.documents.snapshot? (fileUrl "/a")).any (·.text == "new")) = some true := by
    decide +kernel
  obtain ⟨r, hr, hheld⟩ := Option.map_eq_some_iff.mp hplays
  obtain ⟨hset, hy⟩ := Bool.and_eq_true_iff.mp hheld
  obtain ⟨set, hset, hhash⟩ := (Option.any_eq_true _ _).mp hset
  obtain ⟨y, hy, htext⟩ := (Option.any_eq_true _ _).mp hy
  have hhash := eq_of_beq hhash
  have htext := eq_of_beq htext
  have hrun : Run (scripted fun _ => []) ∅ beginner r.1 r.2 := by
    refine Run.plays .start (fun x t hx ht => ?_) hr
    obtain rfl : x = ⟨fileUrl "/a", none, .waterfall (some 3)⟩ := by simpa [outrunning] using hx
    cases ht
  obtain ⟨x, look, noted, hx, hcounts⟩ :=
    hrun.imports_of_open (answers_scripted _) FlightTable.isIdle_empty rfl hset
  refine ⟨r, set, y, hrun, hset, hy, htext, hhash, x, look, noted, hx,
    (hcounts y hy).resolve_left ?_⟩
  rw [hhash, htext]
  decide +kernel

end Run
end LanguageServer.Survey
