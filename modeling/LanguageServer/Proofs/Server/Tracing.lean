import LanguageServer.Proofs.Server.Walks

/-! Whence the answers of a survey come, however questions, invalidations and walks are interleaved. -/
namespace LanguageServer.Survey

open ImportGraph.ReadSet (urls)

variable {o : Oracle} {texts : Set String} {q : Server.Questions} {w : Scene × List Answer} {s : Server}
  {u : Url} {t : String} {h h' asked : List Moment} {m : Machine Survey}

section Excused

variable {κ ν : Type} {table : Moment → FlightTable κ ν} {key : κ} {id : FlightId}
  {look start told : List Moment}

theorem Excused.of_suffix (hu : Excused table key id h u look) (hh : asked <:+ h) :
    Excused table key id asked u look := fun m older hm ho hspoils n rest hn =>
  hu m older (hm.trans hh) ho hspoils n rest (hn.trans hh)

/-- What counts needs no excuse. -/
theorem Unspoiled.excused (hu : Unspoiled u look asked) : Excused table key id asked u look :=
  fun m older hm ho hspoils => absurd hspoils (hu m older hm ho)

/-- What counted when a flight began, was spoiled while the flight was in the air. -/
theorem Unspoiled.excused_of_aloft (hu : Unspoiled u look start) (hstart : start <:+ h)
    (hasked : asked <:+ h)
    (haloft : ∀ m older, m :: older <:+ asked → start <:+ older → (key, id) ∈ (table m).running.pairs) :
    Excused table key id asked u look := fun m older hm ho hspoils n rest hn hlater => by
  have hbegun {p : Moment} {k : List Moment} (hp : p :: k <:+ asked) (hmp : m :: older <:+ p :: k) :
      start <:+ k := by
    obtain hin | hout := List.suffix_or_suffix_of_suffix (hp.trans hasked) hstart
    · exact absurd hspoils (hu m older (hmp.trans hin) ho)
    · obtain rfl | hout := List.suffix_cons_iff.mp hout
      · exact absurd hspoils (hu m older hmp ho)
      · exact hout
  exact haloft n rest hn (hbegun hn hlater)

end Excused

/-- What a walk has come to is kept if nothing that it noted has changed. -/
theorem Sound.storeWaterfall {w : Scene} {s : Server} (hs : Sound o texts w s) {since : List Moment}
    {r : ReadSet} (hn : Notes since w.history r) (ht : t ∈ texts) {depth : Nat}
    {found : List WaterfallSymbol}
    (hfound : WaterfallWalk.Yields (tidings o texts (Tops o) (Noted r since w.history) w.history) u t
      depth found) (now : Instant) :
    Sound o texts w { s with
      graph := s.graph.storeWaterfall now u depth (Hash.ofText t) ⟨Hash.ofText t, depth, found⟩ r } := by
  obtain ⟨m, h, hh, hm⟩ := hs.current
  refine hs.regraph rfl rfl ⟨rfl, rfl, rfl⟩ (fun x hx => .inl hx) (fun x hx => ?_) fun x hx => .inl hx
  refine (ImportGraph.mem_storeIfUnchanged hx).imp_right fun ⟨hsame, hx⟩ => ?_
  subst hx
  refine ⟨t, ht, rfl, rfl, rfl, hfound.mono (tidings_extends (fun v look hnoted => ?_) List.suffix_rfl)⟩
  exact hnoted.holding hn hh hs.story hm.generation hm.epochs hsame

theorem Sound.storeCycle {w : Scene} {s : Server} (hs : Sound o texts w s) {since : List Moment}
    {r : ReadSet} (hn : Notes since w.history r) (ht : t ∈ texts) {verdict : CycleVerdict}
    (hfound : CycleWalk.Yields (tidings o texts Bare (Noted r since w.history) w.history) u t verdict)
    (now : Instant) :
    Sound o texts w { s with graph := s.graph.storeCycle now u (Hash.ofText t) verdict r } := by
  obtain ⟨m, h, hh, hm⟩ := hs.current
  refine hs.regraph rfl rfl ⟨rfl, rfl, rfl⟩ (fun x hx => .inl hx) (fun x hx => .inl hx) fun x hx => ?_
  refine (ImportGraph.mem_storeIfUnchanged hx).imp_right fun ⟨hsame, hx⟩ => ?_
  subst hx
  refine ⟨t, ht, rfl, hfound.mono (tidings_extends (fun v look hnoted => ?_) List.suffix_rfl)⟩
  exact hnoted.holding hn hh hs.story hm.generation hm.epochs hsame

/-- What a walk has come to since it was begun, as the outcome of a flight that began before. -/
theorem WaterfallEnd.sees {since start : List Moment} {depth : Nat}
    {r : Except Failure (List WaterfallSymbol × ReadSet)}
    (hend : WaterfallEnd o texts u t depth since h r) (hstart : start <:+ since) (ht : t ∈ texts) :
    SeesWaterfall o texts (Unspoiled · · start) h (u, depth, Hash.ofText t)
      (r.map fun p => ⟨Hash.ofText t, depth, p.1⟩) := by
  cases r with
  | ok p => exact ⟨t, ht, rfl, rfl, rfl, hend.2.mono (tidings_extends
      (fun _ _ hnoted => hnoted.unspoiled.of_suffix hstart) List.suffix_rfl)⟩
  | error f => exact hend.imp_right fun hfails => ⟨t, ht, rfl, hfails.mono (tidings_extends
      (fun _ _ hlook => hlook.of_suffix hstart) List.suffix_rfl)⟩

theorem CycleEnd.sees {since start : List Moment} {r : Except Failure (CycleVerdict × ReadSet)}
    (hend : CycleEnd o texts u t since h r) (hstart : start <:+ since) (ht : t ∈ texts) :
    SeesCycle o texts (Unspoiled · · start) h (u, Hash.ofText t) (r.map Prod.fst) := by
  cases r with
  | ok p => exact ⟨t, ht, rfl, hend.2.mono (tidings_extends
      (fun _ _ hnoted => hnoted.unspoiled.of_suffix hstart) List.suffix_rfl)⟩
  | error f => exact hend.imp_right fun hfails => ⟨t, ht, rfl, (tidings_extends
      (fun _ _ hlook => hlook.of_suffix hstart) List.suffix_rfl).imports _ _ _ hfails⟩

section Meets

variable (ho : o.Answers q) (hs : (serverTerms o texts).holds w s)
include ho hs

/-- A waterfall that is held comes of readings that still count; else a flight for the same document,
depth and text tells what its walk has come to. -/
theorem meets_waterfallOf (u : Url) (ht : t ∈ texts) (depth : Nat)
    {Q : Except Failure Waterfall → Scene × List Answer → Server → Prop}
    (hQ : ∀ r v s id told, w.1.Grows v.1 → (serverTerms o texts).holds v s → told <:+ v.1.history →
      SeesWaterfall o texts (Excused (·.server.graph.waterfallFlights) (u, depth, Hash.ofText t) id
        w.1.history) told (u, depth, Hash.ofText t) r → Q r v s) :
    (Server.waterfallOf u t depth q).Meets (serverTerms o texts) Q w s := by
  rw [Server.waterfallOf, Task.meets_then, Server.meets_timed]
  intro now
  have hs' : (serverTerms o texts).holds w
      { s with graph := (s.graph.waterfallOf (s.time now) u depth (Hash.ofText t)).2 } := by
    refine ⟨hs.1.regraph rfl rfl ⟨rfl, rfl, rfl⟩ (fun x hx => .inl hx) (fun x hx => .inl ?_)
      (fun x hx => .inl hx), hs.2⟩
    exact Timed.Cache.mem_settle hx
  simp only [Server.graphLens]
  cases hw : (s.graph.waterfallOf (s.time now) u depth (Hash.ofText t)).1 with
  | some found =>
    refine hQ _ w _ 0 w.1.history (.refl _) hs' List.suffix_rfl ?_
    exact (hs.1.sees_waterfallOf hw).mono (fun _ _ hlook => hlook.excused) List.suffix_rfl
  | none =>
    refine Hangar.meets_share serverTerms_orderly waterfalls_serves hs'
      (fun x hx hstart v s hs hh hbegun => ?_) fun r v s x told hs hv htold hr hflew => ?_
    · obtain ⟨id, key, start⟩ := x
      obtain rfl : key = (u, depth, Hash.ofText t) := hx
      obtain rfl : start = w.1.history := hstart
      have hwalk : (Server.walkWaterfall u t depth q).MeetsFrom (serverTerms o texts) true
          (fun r v' s => v.1.Grows v'.1 ∧ (serverTerms o texts).holds v' s ∧
            WaterfallEnd o texts u t depth v.1.history v'.1.history r) v s :=
        meets_walkWaterfall ho hs u ht depth fun r v' s hv hs hr => ⟨hv, hs, hr⟩
      refine Task.MeetsFrom.bind (hwalk.mono fun r v' s ⟨hv, hs, hr⟩ waited => ?_)
      have hbegun := hv.waterfalls.begun.subset hbegun
      have hsees := hr.sees hh ht
      cases r with
      | error f => exact ⟨hs, hbegun, hsees⟩
      | ok p => exact fun now => ⟨⟨hs.1.storeWaterfall hr.1 ht hr.2 _, hs.2⟩, hbegun, hsees⟩
    · have hr : SeesWaterfall o texts (Unspoiled · · x.start) told x.key r := hr
      rw [hflew.isOf] at hr
      -- the flight may have begun before the question: what it missed is excused
      refine hQ r v s x.id told hv hs htold (hr.mono (fun u look hlook => ?_) List.suffix_rfl)
      exact hlook.excused_of_aloft hflew.started hflew.landed hflew.aloft

/-- A verdict on cycles that is held comes of readings that still count; else a flight for the same
document and text tells what its search has come to. -/
theorem meets_cycleOf (u : Url) (ht : t ∈ texts)
    {Q : Except Failure CycleVerdict → Scene × List Answer → Server → Prop}
    (hQ : ∀ r v s id told, w.1.Grows v.1 → (serverTerms o texts).holds v s → told <:+ v.1.history →
      SeesCycle o texts (Excused (·.server.graph.cycleFlights) (u, Hash.ofText t) id w.1.history) told
        (u, Hash.ofText t) r → Q r v s) :
    (Server.cycleOf u t q).Meets (serverTerms o texts) Q w s := by
  rw [Server.cycleOf, Task.meets_then, Server.meets_timed]
  intro now
  have hs' : (serverTerms o texts).holds w
      { s with graph := (s.graph.cycleOf (s.time now) u (Hash.ofText t)).2 } := by
    refine ⟨hs.1.regraph rfl rfl ⟨rfl, rfl, rfl⟩ (fun x hx => .inl hx) (fun x hx => .inl hx)
      (fun x hx => .inl ?_), hs.2⟩
    exact Timed.Cache.mem_settle hx
  simp only [Server.graphLens]
  cases hw : (s.graph.cycleOf (s.time now) u (Hash.ofText t)).1 with
  | some verdict =>
    refine hQ _ w _ 0 w.1.history (.refl _) hs' List.suffix_rfl ?_
    exact (hs.1.sees_cycleOf hw).mono (fun _ _ hlook => hlook.excused) List.suffix_rfl
  | none =>
    refine Hangar.meets_share serverTerms_orderly cycles_serves hs'
      (fun x hx hstart v s hs hh hbegun => ?_) fun r v s x told hs hv htold hr hflew => ?_
    · obtain ⟨id, key, start⟩ := x
      obtain rfl : key = (u, Hash.ofText t) := hx
      obtain rfl : start = w.1.history := hstart
      have hwalk : (Server.walkCycle u t q).MeetsFrom (serverTerms o texts) true
          (fun r v' s => v.1.Grows v'.1 ∧ (serverTerms o texts).holds v' s ∧
            CycleEnd o texts u t v.1.history v'.1.history r) v s :=
        meets_walkCycle ho hs u ht fun r v' s hv hs hr => ⟨hv, hs, hr⟩
      refine Task.MeetsFrom.bind (hwalk.mono fun r v' s ⟨hv, hs, hr⟩ waited => ?_)
      have hbegun := hv.cycles.begun.subset hbegun
      have hsees := hr.sees hh ht
      cases r with
      | error f => exact ⟨hs, hbegun, hsees⟩
      | ok p => exact fun now => ⟨⟨hs.1.storeCycle hr.1 ht hr.2 _, hs.2⟩, hbegun, hsees⟩
    · have hr : SeesCycle o texts (Unspoiled · · x.start) told x.key r := hr
      rw [hflew.isOf] at hr
      -- the flight may have begun before the question: what it missed is excused
      refine hQ r v s x.id told hv hs htold (hr.mono (fun u look hlook => ?_) List.suffix_rfl)
      exact hlook.excused_of_aloft hflew.started hflew.landed hflew.aloft

/-- Whatever is asked about a text that is asked about after a call. -/
theorem meets_askText (u : Url) (ht : t ∈ texts) (what : What) (hasked : asked <:+ w.1.history)
    {Q : Except Failure what.Value → Scene × List Answer → Server → Prop}
    (hQ : ∀ r v s, w.1.Grows v.1 → (serverTerms o texts).holds v s →
      Comes o texts asked v.1.history u t what r → Q r v s) :
    (askText q u t what).Meets (serverTerms o texts) Q w s := by
  cases what with
  | imports =>
    refine meets_importsOf hs ho u ht fun r v s told hv hs htold hcounts hr => ?_
    exact hQ r v s hv hs ⟨told, htold, hcounts.of_suffix hasked, hr⟩
  | waterfall depth =>
    obtain ⟨m, h, hh, hm⟩ := current_of_holds hs
    rw [askText, Task.meets_then, Task.meets_read]
    refine meets_waterfallOf ho hs u ht _ fun r v s id told hv hs htold hr => ?_
    refine hQ r v s hv hs ⟨m, hv.history.subset (hh ▸ List.mem_cons_self), id, told, htold, ?_⟩
    rw [hm.configuration]
    exact hr.mono (fun _ _ hlook => hlook.of_suffix hasked) List.suffix_rfl
  | cycle =>
    refine meets_cycleOf ho hs u ht fun r v s id told hv hs htold hr => ?_
    exact hQ r v s hv hs
      ⟨id, told, htold, hr.mono (fun _ _ hlook => hlook.of_suffix hasked) List.suffix_rfl⟩

omit ho hs in
/-- A question about a document is one about the text that it has, once the process runs. -/
theorem askDocument_eq (q : Server.Questions) (u : Url) (what : What) :
    askDocument q u what = Server.withDocument u fun x => askText q u x.text what := by
  cases what <;> rfl

/-- Every question is answered by what was read after the call, or counted at the call. -/
theorem meets_ask (x : Query) (ht : ∀ t, x.text = some t → t ∈ texts) (hasked : asked <:+ w.1.history) :
    (ask q x).Meets (serverTerms o texts) (fun r v s => w.1.Grows v.1 ∧
      (serverTerms o texts).holds v s ∧ Means o texts asked v.1.history x r) w s := by
  obtain ⟨u, text, what⟩ := x
  cases text with
  | some t =>
    refine (Task.meets_bind _ _ _).mpr ?_
    exact meets_askText ho hs u (ht t rfl) what hasked fun r v s hv hs hr => ⟨hv, hs, .given hr⟩
  | none =>
    rw [ask, askDocument_eq, Server.withDocument, Task.meets_then]
    refine serverTerms_recounts.meets_document? hs u fun x v s look hv hs hlook hsaw => ?_
    cases x with
    | none => exact ⟨hv, hs, .missing (hasked.trans hlook) List.suffix_rfl hsaw⟩
    | some x =>
      have htext := hsaw.text_mem hs.1.within
      rw [Task.meets_then]
      refine serverTerms_recounts.meets_quiet hs Server.abides_ensureStarted (Task.gives_true _)
        fun started v' s _ hv' hs => ?_
      cases started with
      | error f => exact ⟨hv.trans hv', hs, .unstarted⟩
      | ok _ =>
        dsimp only
        rw [Task.meets_then]
        refine meets_askText ho hs u htext what
          ((hasked.trans hv.history).trans hv'.history) fun r v'' s hv'' hs hr => ?_
        exact ⟨(hv.trans hv').trans hv'', hs, .read (hasked.trans hlook)
          (hv'.trans hv'').history hsaw hr⟩

end Meets

theorem call_ready {w : Scene} (ho : o.Answers q) (x : Query) (ht : ∀ t, x.text = some t → t ∈ texts) :
    (terms o texts).Ready w (call q w.history x) := by
  intro v p hv hs
  have hask : (ask q x).MeetsFrom (serverTerms o texts) true (fun r v' s => v.Grows v'.1 ∧
      (serverTerms o texts).holds v' s ∧ Means o texts w.history v'.1.history x r)
      (v, p.answers) p.server := by
    have h := meets_ask (w := (v, p.answers)) (s := p.server) ho hs x ht hv.history
    obtain ⟨u, text, what⟩ := x
    cases text with
    | some t => cases what <;> exact h
    | none => cases what <;> exact h
  refine Task.MeetsFrom.bind (Task.MeetsFrom.zoom (s := p.server) (r := p.answers) complement ?_)
  refine hask.mono fun r v' s ⟨hv', hs, hr⟩ waited now => ⟨v'.1, terms_orderly.own_refl v'.1, hs.1, ?_⟩
  exact List.forall_mem_cons.mpr ⟨⟨hv.history.trans hv'.history, hr⟩, hs.2⟩

section Run

variable {w : Scene} {s₀ : Server}

/-- A moment is added, and what was derived from some files is dropped. -/
theorem Sound.next {m : Moment} {lost : Url → Prop} (hs : Sound o texts w s) (hm : m.Ensues lost s)
    (hwithin : m.IsWithin texts) :
    Sound o texts { w with history := m :: w.history } m.server := by
  have hcounts {u : Url} {look : List Moment} (hlost : ¬ lost u)
      (hlook : Unspoiled u look w.history) : Unspoiled u look (m :: w.history) :=
    hlook.cons fun hu => hlost (hm.spoils u hu)
  refine ⟨⟨m, w.history, rfl, .refl m⟩, hs.story.next hs.current hm,
    List.forall_mem_cons.mpr ⟨hwithin, hs.within⟩,
    ?_, ?_, ?_, fun x hx => ?_, fun x hx => ?_, fun x hx => ?_⟩
  · exact hm.drops.importFlights.symm ▸ hs.extractions.next hm.drops.importFlights
  · exact hm.drops.waterfallFlights.symm ▸ hs.waterfalls.next hm.drops.waterfallFlights
  · exact hm.drops.cycleFlights.symm ▸ hs.cycles.next hm.drops.cycleFlights
  · obtain ⟨hx, hlost⟩ := hm.drops.imports x hx
    obtain ⟨told, htold, hlook, hset⟩ := hs.heldImports x hx
    exact ⟨told, htold.trans (List.suffix_cons _ _), hcounts hlost hlook, hset⟩
  · obtain ⟨hx, hlost⟩ := hm.drops.waterfalls x hx
    exact (hs.heldWaterfalls x hx).mono (fun u look hlook =>
      ⟨hlook.1, hcounts (hlost u hlook.1) hlook.2⟩) (List.suffix_cons _ _)
  · obtain ⟨hx, hlost⟩ := hm.drops.cycles x hx
    exact (hs.heldCycles x hx).mono (fun u look hlook =>
      ⟨hlook.1, hcounts (hlost u hlook.1) hlook.2⟩) (List.suffix_cons _ _)

/-- A server whose flights are idle and whose caches are up to date is sound. -/
theorem Sound.start (hidle : s₀.graph.IsIdle) (hheld : UpToDate o texts s₀)
    (hwithin : Moment.IsWithin texts ⟨none, s₀⟩) :
    Sound o texts ⟨[⟨none, s₀⟩], ⟨[], []⟩, ⟨[], []⟩, ⟨[], []⟩⟩ s₀ where
  current := ⟨_, [], rfl, .refl _⟩
  story := List.isChain_singleton _
  within := by simpa using hwithin
  extractions := .idle hidle.imports
  waterfalls := .idle hidle.waterfalls
  cycles := .idle hidle.cycles
  heldImports := hheld.imports
  heldWaterfalls := hheld.waterfalls
  heldCycles := hheld.cycles

/-- Where no flight is in the air, all that began have ended. -/
theorem Sound.isIdle {w : Scene} (hs : Sound o texts w s) (h : s.graph.IsGrounded) : s.graph.IsIdle :=
  ⟨⟨h.imports, hs.extractions.ended⟩, ⟨h.waterfalls, hs.waterfalls.ended⟩, ⟨h.cycles, hs.cycles.ended⟩⟩

/-- Calls keep to the terms, and a moment that is added leaves them true. -/
theorem terms_governs (ho : o.Answers q) :
    Governs q texts (Moment.IsWithin texts) (terms o texts) Scene.history where
  orderly := terms_orderly
  recounts := serverTerms_recounts
  own _ _ hv := hv.1
  calls _ x ht := call_ready ho x ht
  next w p m lost hs hm hwithin := by
    refine ⟨{ w with history := m :: w.history },
      ⟨List.suffix_cons _ _, .refl _ _, .refl _ _, .refl _ _⟩, rfl, hs.1.next hm hwithin, ?_⟩
    exact fun x hx => (hs.2 x hx).of_suffix (List.suffix_cons _ _)

variable (ho : o.Answers q) (hidle : s₀.graph.IsIdle) (hheld : UpToDate o texts s₀)
include ho hidle hheld

/-- All tasks of a survey keep to the terms. -/
theorem Run.binds (hr : Run q texts s₀ h m) (hwithin : ∀ p ∈ h, p.IsWithin texts) :
    ∃ w : Scene, w.history = h ∧ (terms o texts).Binds w m := by
  refine (terms_governs ho).binds hr ⟨_, rfl, .start hidle hheld ?_, by simp⟩ hwithin
  exact hwithin _ hr.mem_start

/-- What is sound of a survey is sound after every run. -/
theorem Run.sound (hr : Run q texts s₀ h m) (hwithin : ∀ p ∈ h, p.IsWithin texts) :
    ∃ w : Scene, w.history = h ∧ Sound o texts w m.state.server ∧
      ∀ x ∈ m.state.answers, x.IsTraced o texts h := by
  obtain ⟨w, rfl, hbinds⟩ := hr.binds ho hidle hheld hwithin
  exact ⟨w, rfl, hbinds.holds⟩

omit hidle hheld in
/-- Every answer comes of readings that counted when it was asked for, unless they were spoiled while
a walk for the same document, depth and text was under way, which had not ended when it was asked for. -/
theorem Run.answers_counted (hs₀ : s₀.graph.IsNew) (hr : Run q texts s₀ h m)
    (hwithin : ∀ p ∈ h, p.IsWithin texts) {x : Answer} (hx : x ∈ m.state.answers) :
    x.IsTraced o texts h := by
  obtain ⟨w, rfl, -, htraced⟩ := hr.sound ho hs₀.isIdle (.of_isNew hs₀) hwithin
  exact htraced x hx

end Run

section Joined

/-- The document `a` inherits the document `b`. -/
def inheriting (t : String) : List ImportEdge :=
  if t = "a" then [⟨.inheritProgram, "b", some ⟨"/b"⟩, none⟩] else []

def waterfallQuery : Query := ⟨fileUrl "/a", some "a", .waterfall (some 3)⟩

/-- The waterfall that this question was answered with. -/
def waterfall? : Answer → Option Waterfall
  | ⟨_, ⟨u, some t, .waterfall (some 3)⟩, .ok (some w)⟩ =>
    if u = fileUrl "/a" ∧ t = "a" then some w else none
  | _ => none

theorem eq_of_waterfall? {x : Answer} {w : Waterfall} (h : waterfall? x = some w) :
    x = ⟨x.asked, waterfallQuery, .ok (some w)⟩ := by
  unfold waterfall? at h
  split at h
  · obtain ⟨⟨rfl, rfl⟩, hw⟩ := Option.ite_none_right_eq_some.mp h
    cases hw
    rfl
  · cases h

def symbolNames (w : Waterfall) : List String := w.symbols.map (·.symbol.name)

/-- A walk from `a` has read `b` when `b` is edited. Another question for `a` is asked after the edit
and joins the walk. -/
def joining : List Cue :=
  [.event (.told (.opened (fileUrl "/b") 1 "old")), .ask waterfallQuery] ++
  [0, 1, 1, 2, 1, 1].map .move ++
  [.event (.told (.changed (fileUrl "/b") 2 [⟨none, "new"⟩])), .ask waterfallQuery] ++
  [3, 1, 4, 1, 1, 0, 3].map .move

/-- The edit has been told before the second question is asked, and the answer has the old symbol. -/
theorem Run.answers_counted_joined : ∃ (r : Stage) (p : Moment) (k : List Moment) (w : Waterfall),
    Run (scripted inheriting) Set.univ beginner r.1 r.2 ∧ p.Spoils (fileUrl "/b") ∧
    p.server.text? (fileUrl "/b") = some "new" ∧ symbolNames w = ["old"] ∧
    ⟨p :: k, waterfallQuery, .ok (some w)⟩ ∈ r.2.state.answers ∧
    Answer.IsTraced (.scripted inheriting) Set.univ r.1 ⟨p :: k, waterfallQuery, .ok (some w)⟩ := by
  have hplays : (joining.foldlM (Cue.play (scripted inheriting)) (opening beginner)).map (fun r =>
      r.2.state.answers.any fun x => (waterfall? x).any (fun w => symbolNames w == ["old"]) &&
        x.asked.head?.any fun p => decide (p.Spoils (fileUrl "/b")) &&
          p.server.text? (fileUrl "/b") == some "new") = some true := by decide +kernel
  obtain ⟨r, hr, hany⟩ := Option.map_eq_some_iff.mp hplays
  obtain ⟨x, hx, htest⟩ := List.any_eq_true.mp hany
  obtain ⟨hw, hp⟩ := Bool.and_eq_true_iff.mp htest
  obtain ⟨w, hw, hold⟩ := (Option.any_eq_true _ _).mp hw
  obtain ⟨p, hp, hedited⟩ := (Option.any_eq_true _ _).mp hp
  obtain ⟨hspoils, hnew⟩ := Bool.and_eq_true_iff.mp hedited
  obtain ⟨k, hk⟩ := List.head?_eq_some_iff.mp hp
  have hrun : Run (scripted inheriting) Set.univ beginner r.1 r.2 :=
    Run.plays .start (fun _ _ _ _ => trivial) hr
  have htraced := hrun.answers_counted (answers_scripted _) ⟨_, _, _, rfl⟩ (fun _ _ _ => ⟨fun _ _ => trivial,
    fun _ _ => trivial⟩) hx
  rw [eq_of_waterfall? hw, hk] at hx htraced
  exact ⟨r, p, k, w, hrun, of_decide_eq_true hspoils, eq_of_beq hnew, eq_of_beq hold, hx, htraced⟩

end Joined
end LanguageServer.Survey
