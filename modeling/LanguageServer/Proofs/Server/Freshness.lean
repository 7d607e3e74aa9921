import LanguageServer.Proofs.Server.Lineage

/-! What a call for an analysis meets while others move, edit and change files: what it reads, what it
is given for it, and where that comes from. -/
namespace LanguageServer.Office

variable (compiles : String → String → Analysis → Prop)

/-- What is true of an office between two moves. -/
structure Sound (w : Scene) (o : Office) : Prop where
  current : ∃ now older, w.history = now :: older ∧
    now.server.documents = o.server.documents ∧ now.server.around.files = o.server.around.files ∧
    (w.isSettled = true → now.server.analyses = o.server.analyses)
  recalls : ∀ f t look, Took f t look w.history →
    Forgotten f.url look w.history ∨ o.server.Denotes t f
  sourced : Sourced compiles w o.server.analyses
  answered : ∀ m ∈ w.history, ∀ x ∈ m.office.answers, x ∈ o.answers
  traced : ∀ x ∈ o.answers, x.IsTraced compiles w.history

/-- Tasks add flights, and everything else is added to the history. -/
def terms : Contract Scene Office where
  holds := Sound compiles
  own w v := v.history = w.history ∧ w.flights <:+ v.flights
  others w v := w.history <:+ v.history ∧ w.flights <:+ v.flights ∧ v.isSettled = true
  stalls _ := True
  isTotal := False
  isShared := True

/-- The terms as they bind a task on the server. -/
abbrev serverTerms : Contract (Scene × List Answer) Server := (terms compiles).within complement.whole

variable {compiles}

theorem terms_orderly : (terms compiles).Orderly where
  shared := trivial
  endless := id
  stalls _ := trivial
  own_refl _ := ⟨rfl, List.suffix_rfl⟩
  own_trans _ _ _ hv hw := ⟨hw.1.trans hv.1, hv.2.trans hw.2⟩
  others_trans _ _ _ hv hw := ⟨hv.1.trans hw.1, hv.2.1.trans hw.2.1, hw.2.2⟩
  others_of_own _ _ _ hv hw := ⟨hv.1 ▸ hw.1, hv.2.trans hw.2.1, hw.2.2⟩

theorem serverTerms_orderly : (serverTerms compiles).Orderly := terms_orderly.within _

theorem holds_of_spares (w : Scene × List Answer) (s s' : Server) (hspares : Server.Spares s s')
    (hs : (serverTerms compiles).holds w s) : (serverTerms compiles).holds w s' where
  current := by
    obtain ⟨now, older, hh, hdocuments, hfiles, hanalyses⟩ := hs.current
    exact ⟨now, older, hh, hdocuments.trans hspares.documents.symm,
      hfiles.trans hspares.files.symm, fun hw => (hanalyses hw).trans hspares.analyses.symm⟩
  recalls f t look ht :=
    (hs.recalls f t look ht).imp_right fun h => h.congr hspares.documents hspares.files
  sourced := hspares.analyses.symm ▸ hs.sourced
  answered := hs.answered
  traced := hs.traced

theorem depicts_serverTerms : Depicts compiles (serverTerms compiles) (fun _ => True) (·.1) where
  orderly := serverTerms_orderly
  current _ _ hs := hs.current
  sourced _ _ hs := hs.sourced
  others _ _ hv := ⟨hv.1, hv.2.1, hv.2.2, id⟩
  spares := holds_of_spares
  stored w s flights a _ hs hflights ha := by
    obtain ⟨now, older, hh, hdocuments, hfiles, -⟩ := hs.current
    exact ⟨(⟨w.1.history, flights, false⟩, w.2), ⟨⟨rfl, hflights⟩, rfl⟩, trivial, rfl,
      ⟨now, older, hh, hdocuments, hfiles, by simp⟩, hs.recalls, ha, hs.answered, hs.traced⟩

section Call

variable {before : List Moment} {u : Url} {w : Scene × List Answer} {s : Server}

/-- A history goes on after a call that was made when `before` and one more moment had passed. -/
def Since (before h : List Moment) : Prop := ∃ newer now, h = newer ++ now :: before

theorem Since.of_suffix {h older : List Moment} (hb : Since before older) (ho : older <:+ h) :
    Since before h := by
  obtain ⟨newer, now, rfl⟩ := hb
  obtain ⟨newest, rfl⟩ := ho
  exact ⟨newest ++ newer, now, by simp⟩

/-- A document had a fingerprint since a call. What was read under it before the call is the text of
the document or of its file since the call, unless the document was forgotten. -/
def Recalls (before h : List Moment) (f : Fingerprint) : Prop :=
  ∃ since, h = since ++ before ∧ (∃ m ∈ since, m.server.Names f) ∧ ∀ t look, Took f t look before →
    Has f.url t since ∨ Hides f.url t since ∨ Forgotten f.url look h

theorem Recalls.of_suffix {h older : List Moment} {f : Fingerprint} (hf : Recalls before older f)
    (ho : older <:+ h) : Recalls before h f := by
  obtain ⟨since, rfl, ⟨m, hm, hnames⟩, hrecalls⟩ := hf
  obtain ⟨newer, rfl⟩ := ho
  refine ⟨newer ++ since, by simp, ⟨m, List.mem_append_right newer hm, hnames⟩, fun t look ht => ?_⟩
  obtain ⟨p, hp, htext⟩ | ⟨p, hp, htext⟩ | hforgotten := hrecalls t look ht
  · exact .inl ⟨p, List.mem_append_right newer hp, htext⟩
  · exact .inr (.inl ⟨p, List.mem_append_right newer hp, htext⟩)
  · exact .inr (.inr (hforgotten.of_suffix (List.suffix_append _ _)))

/-- What the call has read of its document by now. -/
structure Reads (before h : List Moment) (u : Url) (x : Snapshot) : Prop where
  url : x.fingerprint.url = u
  took : ∃ look, Took x.fingerprint x.text look h
  recalls : Recalls before h x.fingerprint

theorem Reads.of_suffix {h older : List Moment} {x : Snapshot} (hx : Reads before older u x)
    (ho : older <:+ h) : Reads before h u x where
  url := hx.url
  took := hx.took.imp fun _ ht => ht.of_suffix ho
  recalls := hx.recalls.of_suffix ho

/-- What a call comes to. -/
def Comes (compiles : String → String → Analysis → Prop) (before h : List Moment) (u : Url)
    (r : Except Failure (Option Analysis)) : Prop :=
  ∀ a, r = .ok (some a) → ∃ since t, h = since ++ before ∧
    compiles t (Server.filename u) a ∧ Origin u t a since before

theorem Found.origin {asked h : List Moment} {f : Fingerprint} {a : Analysis}
    (ha : Found compiles asked h f a) (hf : Recalls before asked f) (hasked : asked <:+ h)
    (hordered : h.Pairwise fun m l => ∀ id, m.outcome? id = none → l.outcome? id = none) :
    ∃ since t, h = since ++ before ∧ compiles t (Server.filename f.url) a ∧
      Origin f.url t a since before := by
  obtain ⟨⟨t, look, hcompiled, ht⟩, id, ⟨l, hl, htold⟩, hlasts⟩ := ha
  obtain ⟨since, rfl, ⟨p, hp, hnames⟩, hrecalls⟩ := hf
  obtain ⟨newer, rfl⟩ := hasked
  refine ⟨newer ++ since, t, by simp, hcompiled, ?_⟩
  rw [← List.append_assoc] at ht
  obtain hhas | hhides | ht := ht.split
  · exact .current hhas
  · exact .hidden hhides
  obtain ⟨q, hq, htext⟩ | ⟨q, hq, htext⟩ | ⟨m, older, hm, hlook, hforgets⟩ := hrecalls t look ht
  · exact .current ⟨q, List.mem_append_right newer hq, htext⟩
  · exact .hidden ⟨q, List.mem_append_right newer hq, htext⟩
  obtain ⟨later, hlater⟩ := hm
  have hnone : m.outcome? id = none :=
    hlasts m (hlater ▸ List.mem_append_right later List.mem_cons_self) hforgets
  rw [← hlater, ← List.append_assoc] at hl hordered
  refine .returned f rfl ⟨⟨p, List.mem_append_right newer hp, hnames⟩, look, id, newer ++ later, m,
    older, ht, by simp [← hlater], hlook, hforgets, hnone, l, ?_, htold⟩
  obtain hl | hl := List.mem_append.mp hl
  · exact hl
  · -- an outcome is never lost, so it cannot have been there before
    obtain rfl | hl := List.mem_cons.mp hl
    · cases hnone.symm.trans htold
    · have hafter := (List.pairwise_append.mp hordered).2.1
      cases ((List.pairwise_cons.mp hafter).1 l hl id hnone).symm.trans htold

/-- Whatever a document goes by now it goes by at a moment since the call. -/
theorem Sound.recallsFrom {w : Scene} {o : Office} (hs : Sound compiles w o)
    (hb : Since before w.history) {f : Fingerprint} (hf : o.server.Names f) :
    Recalls before w.history f := by
  obtain ⟨now, older, hh, hdocuments, hfiles, -⟩ := hs.current
  obtain ⟨newer, first, hsince⟩ := hb
  have hnow : now ∈ newer ++ [first] := by
    rw [hsince] at hh
    cases newer with
    | nil => simp [(List.cons.inj hh).1]
    | cons _ _ => simp [(List.cons.inj hh).1]
  have hnames : now.server.Names f := by simpa only [Server.Names, hdocuments, hfiles] using hf
  have hbefore : before <:+ w.history := ⟨newer ++ [first], by simp [hsince]⟩
  refine ⟨newer ++ [first], by simp [hsince], ⟨now, hnow, hnames⟩, fun t look ht => ?_⟩
  obtain hforgotten | hdenotes := hs.recalls f t look (ht.of_suffix hbefore)
  · exact .inr (.inr hforgotten)
  · obtain htext | hhidden := (hdenotes.congr hdocuments hfiles).text?_or hnames
    · exact .inl ⟨now, hnow, htext⟩
    · exact .inr (.inl ⟨now, hnow, hhidden⟩)

theorem reads_shown (hs : (serverTerms compiles).holds w s) (hb : Since before w.1.history)
    {x : Snapshot} (hx : s.documents.snapshot? u = some x) : Reads before w.1.history u x := by
  have ht := depicts_serverTerms.took_shown hs hx
  obtain ⟨doc, hdoc, rfl⟩ := Option.map_eq_some_iff.mp hx
  exact ⟨rfl, ⟨_, ht⟩, hs.recallsFrom hb (.inl (Option.map_eq_some_iff.mpr ⟨doc, hdoc, rfl⟩))⟩

/-- A file is read under the fingerprint that it had when it was looked at, then or earlier. -/
theorem reads_onDisk {v : Scene × List Answer} {p : Server} (hs : (serverTerms compiles).holds w s)
    (hp : (serverTerms compiles).holds v p) (hb : Since before w.1.history)
    (hv : w.1.history <:+ v.1.history) {f : Fingerprint}
    (hf : DocumentStore.statOf? s.around.files u = some f) {path : Path}
    (hpath : u.toFilePath? = some path) {t : String} (ht : p.around.files.text? path = some t) :
    Reads before v.1.history u ⟨u, t, f⟩ := by
  have ht := depicts_serverTerms.took_onDisk hs hp hv hf hpath ht
  obtain ⟨size, modified, rfl⟩ := Server.stat_of_statOf? hf
  have hnames : s.Names (.stat u size modified) := .inr hf
  exact ⟨rfl, ⟨_, ht⟩, (hs.recallsFrom hb hnames).of_suffix hv⟩

/-- What a call reads, it reads under a fingerprint that its document has after the call. -/
theorem meets_document? (hs : (serverTerms compiles).holds w s) (hw : w.1.isSettled = true)
    (hb : Since before w.1.history) {Q : Option Snapshot → Scene × List Answer → Server → Prop}
    (hQ : ∀ r v s, (serverTerms compiles).holds v s → v.1.isSettled = true →
      Since before v.1.history → (∀ x, r = some x → Reads before v.1.history u x) → Q r v s) :
    (Server.document? u).Meets (serverTerms compiles) Q w s := by
  refine depicts_serverTerms.meets_document? hs (fun x hx => ?_) (fun v s' _ hv hs' => ?_)
    fun v o v' p f path t _ hv ho hf hpath hv' hp ht => ?_
  · exact hQ _ w s hs hw hb fun y hy => Option.some.inj hy ▸ reads_shown hs hb hx
  · obtain ⟨hhistory, -, hv, -⟩ := depicts_serverTerms.onward ⟨hw, trivial⟩ hv
    exact hQ none v s' hs' hv (hb.of_suffix hhistory) (by simp)
  · obtain ⟨hhistory, -, hcalm⟩ := depicts_serverTerms.onward ⟨hw, trivial⟩ hv
    obtain ⟨hhistory', -, hv', -⟩ := depicts_serverTerms.onward hcalm hv'
    have hb := hb.of_suffix hhistory
    refine hQ _ v' p hp hv' (hb.of_suffix hhistory') fun x hx => ?_
    cases hx
    exact reads_onDisk ho hp hb hhistory' hf hpath ht

variable {compile : String → String → Server.Job (Except Failure Analysis)}
  (hcompile : Compiles compile compiles)
include hcompile

theorem meets_analyzeBy (hs : (serverTerms compiles).holds w s) (hw : w.1.isSettled = true)
    (hb : Since before w.1.history) :
    (Server.analyzeBy compile u).Meets (serverTerms compiles) (fun r v s =>
      (serverTerms compiles).holds v s ∧ Comes compiles before v.1.history u r) w s := by
  refine depicts_serverTerms.meets_analyzeBy_of_reads hcompile
    (P := fun x v => v.1.isSettled = true ∧ Reads before v.1.history u x)
    (meets_document? hs hw hb fun r v s hs hw _ hr => ?_) (fun x f v v' s' _ _ hs' => ?_)
    fun x a v v' s' hx hv hs' ha => ?_
  · exact ⟨hs, ⟨hw, trivial⟩, fun _ => ⟨hs, by simp [Comes]⟩,
      fun x hx => ⟨(hr x hx).url, (hr x hx).took, hw, hr x hx⟩⟩
  · exact ⟨hs', by simp [Comes]⟩
  · obtain ⟨hw, hx⟩ := hx
    obtain ⟨hhistory, -⟩ := depicts_serverTerms.onward ⟨hw, trivial⟩ hv
    refine ⟨hs', fun b hb => ?_⟩
    cases hb
    exact hx.url ▸ ha.origin hx.recalls hhistory hs'.sourced.ordered

theorem call_ready {w : Scene} {now : Moment} (hw : w.history = now :: before) :
    (terms compiles).Ready w (call compile w.history.length u) := by
  intro v o hv hs
  have hb : Since before v.history := Since.of_suffix ⟨[], now, hw⟩ hv.1
  have hanswer : (Server.analyzeBy compile u).MeetsFrom (serverTerms compiles) true
      (fun r v s => (serverTerms compiles).holds v s ∧ Comes compiles before v.1.history u r)
      (v, o.answers) o.server := by
    have h := meets_analyzeBy (w := (v, o.answers)) (s := o.server) (u := u) hcompile hs hv.2.2 hb
    unfold Server.analyzeBy Server.document? at h ⊢
    exact h
  refine Task.MeetsFrom.bind (Task.MeetsFrom.zoom (s := o.server) (r := o.answers) complement ?_)
  refine hanswer.mono fun r v s hr waited now => ⟨v.1, terms_orderly.own_refl v.1, ?_⟩
  obtain ⟨hs, hr⟩ := hr
  refine ⟨hs.current, hs.recalls, hs.sourced,
    fun m hm x hx => List.mem_cons_of_mem _ (hs.answered m hm x hx), fun x hx => ?_⟩
  by_cases hold : x ∈ v.2
  · exact hs.traced x hold
  · obtain rfl | hx := List.mem_cons.mp hx
    · intro a ha
      obtain ⟨since, t, hh, horigin⟩ := hr a ha
      refine ⟨[], since, before, t, hh, by simp [hw], fun m hm hx => ?_, horigin⟩
      exact hold (hs.answered m (hh ▸ List.mem_append_left before hm) _ hx)
    · exact absurd hx hold

end Call

end LanguageServer.Office

/-! From which texts the answers of a server come, however calls, edits and changes of files are
interleaved. -/
namespace LanguageServer.Office

variable {compiles : String → String → Analysis → Prop}

section Run

variable {compile : String → String → Server.Job (Except Failure Analysis)}
  (hcompile : Compiles compile compiles) {h : List Moment} {m : Machine Office}

theorem Sound.next {p : Url → Prop} {w : Scene} {o o' : Office} {e : Option Server.Event}
    (hs : Sound compiles w o) (hanswers : o'.answers = o.answers)
    (hdrops : AnalysisStore.Drops p o.server.analyses o'.server.analyses)
    (hp : ∀ u, Moment.Forgets ⟨e, o'⟩ u → p u)
    (hdenotes : ∀ f t, o.server.Denotes t f →
      Moment.Forgets ⟨e, o'⟩ f.url ∨ o'.server.Denotes t f) :
    Sound compiles ⟨⟨e, o'⟩ :: w.history, w.flights, true⟩ o' where
  current := ⟨_, _, rfl, rfl, rfl, fun _ => rfl⟩
  recalls f t look ht := by
    cases ht with
    | shown _ hshown => exact .inr (Server.denotes_snapshot hshown)
    | onDisk _ _ hstat htext => exact .inr (Server.denotes_stat hstat htext)
    | before ht =>
      obtain hforgotten | hold := hs.recalls f t look ht
      · exact .inl (hforgotten.of_suffix (List.suffix_cons _ _))
      · exact (hdenotes f t hold).imp_left
          fun hforgets => ⟨_, _, List.suffix_rfl, ht.look_suffix, hforgets⟩
  sourced := hs.sourced.next hdrops hp
  answered := by
    refine List.forall_mem_cons.mpr ⟨fun x hx => hx, fun m hm x hx => ?_⟩
    exact hanswers ▸ hs.answered m hm x hx
  traced x hx := (hs.traced x (hanswers ▸ hx)).of_suffix (List.suffix_cons _ _)

/-- A moment is added in which nothing was told and documents, files and analyses are as they were. -/
theorem Sound.pass {w : Scene} {o : Office} {s : Server} (hs : Sound compiles w o)
    (hspares : o.server.Spares s) :
    Sound compiles ⟨⟨none, { o with server := s }⟩ :: w.history, w.flights, true⟩
      { o with server := s } := by
  have hnothing (u : Url) : ¬ Moment.Forgets ⟨none, { o with server := s }⟩ u := by
    rintro ⟨e, he, -⟩
    cases he
  refine hs.next rfl (p := fun _ => False) ?_ hnothing fun f t h =>
    .inr (h.congr hspares.documents hspares.files)
  exact hspares.analyses.symm ▸ .refl _

include hcompile

/-- All tasks of an office keep to the terms, and what happens beside them leaves the terms true. -/
theorem Run.binds (hr : Run compile h m) :
    ∃ flights, (terms compiles).Binds ⟨h, flights, true⟩ m := by
  induction hr with
  | start s hs =>
    refine ⟨[], ⟨⟨_, [], rfl, rfl, rfl, fun _ => rfl⟩, fun f t look ht => ?_, .start hs, ?_, ?_⟩, ?_⟩
    · cases ht with
      | shown _ hshown => exact .inr (Server.denotes_snapshot hshown)
      | onDisk _ _ hstat htext => exact .inr (Server.denotes_stat hstat htext)
      | before ht => cases ht
    · simp [Machine.start]
    · simp [Machine.start]
    · simp [Machine.start]
  | call u _ ih =>
    obtain ⟨flights, ih⟩ := ih
    obtain ⟨now, before, hh, -⟩ := ih.holds.current
    exact ⟨flights, ih.spawn (call_ready hcompile hh)⟩
  | @beside h m t _ ht ih =>
    obtain ⟨flights, ih⟩ := ih
    refine ⟨flights, ih.spawn fun v o hv hs => ?_⟩
    refine Task.MeetsFrom.zoom (s := o.server) (r := o.answers) complement ?_
    exact ht.meetsFrom (w := (v, o.answers)) (s := o.server) serverTerms_orderly holds_of_spares hs
      fun _ v s _ hs => ⟨v.1, terms_orderly.own_refl v.1, hs⟩
  | @event h m e _ he ih =>
    obtain ⟨flights, ih⟩ := ih
    have hs : Sound compiles ⟨⟨some e, serverLens.modify e.apply m.state⟩ :: h, flights, true⟩
        (serverLens.modify e.apply m.state) := by
      refine ih.holds.next rfl (e.drops m.state.server) (fun u hu => ?_) fun f t hold => ?_
      · obtain ⟨e', he', hu⟩ := hu
        cases he'
        exact hu
      · -- a fingerprint goes on denoting its text, unless the event is one that forgets
        by_cases hf : e.Forgets f.url
        · exact .inl ⟨e, rfl, hf⟩
        · exact .inr (hold.event he hf)
    exact ⟨flights, ih.others (v := ⟨_ :: h, flights, true⟩) terms_orderly
      ⟨List.suffix_cons _ h, List.suffix_rfl, rfl⟩ hs m.now⟩
  | @other h m s t _ hs ih =>
    obtain ⟨flights, ih⟩ := ih
    exact ⟨flights, ih.others (v := ⟨_ :: h, flights, true⟩) terms_orderly
      ⟨List.suffix_cons _ h, List.suffix_rfl, rfl⟩ (ih.holds.pass hs) t⟩
  | @move h m n id _ hstep ih =>
    obtain ⟨flights, ih⟩ := ih
    obtain ⟨⟨h', flights', b⟩, ⟨hh, hv⟩, hn⟩ :=
      ih.step terms_orderly ⟨List.suffix_rfl, List.suffix_rfl, rfl⟩ hstep
    cases hh
    exact ⟨flights', hn.others (v := ⟨_ :: h, flights', true⟩) terms_orderly
      ⟨List.suffix_cons _ h, List.suffix_rfl, rfl⟩ (hn.holds.pass (.refl _)) n.now⟩

/-- Every answer is compiled from a text that its document had between the call and the return, unless
the file was read behind an editor, or a flight had not landed when its document was forgotten. -/
theorem Run.answers_traced (hr : Run compile h m) {x : Answer} (hx : x ∈ m.state.answers) :
    x.IsTraced compiles h := by
  obtain ⟨flights, hbinds⟩ := hr.binds hcompile
  exact hbinds.holds.traced x hx

end Run

/-! A run in which an answer is old: a document is closed while its analysis is on the way and opened
again with another text under the same version. -/

section Reopened

/-- An analysis that says what its text is. -/
def echo (text : String) : Analysis := ⟨[], [⟨default, .error, text⟩], []⟩

def echoing (text _filename : String) : Server.Job (Except Failure Analysis) :=
  .done (.ok (echo text))

theorem compiles_echoing : Compiles echoing fun t _ a => a = echo t where
  keeps _ _ := trivial
  gives _ _ _ ha := (Except.ok.inj ha).symm

/-- A history and the machine that it has led to. -/
abbrev Stage := List Moment × Machine Office

def Stage.told (e : Server.Event) (r : Stage) : Stage :=
  (⟨some e, serverLens.modify e.apply r.2.state⟩ :: r.1,
    { r.2 with state := serverLens.modify e.apply r.2.state })

def Stage.called (u : Url) (r : Stage) : Stage := (r.1, r.2.spawn (call echoing r.1.length u))

def Stage.moved (id : TaskId) (r : Stage) : Option Stage :=
  (r.2.step? id).map fun n => (⟨none, n.state⟩ :: r.1, n)

theorem run_moved {r q : Stage} {id : TaskId} (hr : Run echoing r.1 r.2)
    (hq : Stage.moved id r = some q) : Run echoing q.1 q.2 := by
  obtain ⟨n, hn, rfl⟩ := Option.map_eq_some_iff.mp hq
  exact hr.move id hn

theorem isProper_closed (s : Server) (u : Url) (version : Int) (text : String) :
    Server.Event.IsProper (Server.Event.apply (.closed u) s) (.opened u version text) := by
  simp [Server.Event.IsProper, Server.Event.apply, Server.closeDocument, DocumentStore.close,
    DocumentStore.isOpen, Table.contains_eq_isSome_find?, Table.find?_erase]

/-- A server whose process runs. -/
def attended : Server :=
  { Server.new ⟨.empty, [], .scripted none, [], 0, none⟩ {} with
    client := { Analyzer.Client.new with phase := .running } }

def opening : Stage :=
  .called default
    (.told (.opened default 1 "int a;") ([⟨none, ⟨attended, []⟩⟩], .start ⟨attended, []⟩))

def reopening (r : Stage) : Stage :=
  .called default (.told (.opened default 1 "int b;") (.told (.closed default) r))

/-- The second call, made after the document was opened again, is handed the analysis of the text
that was closed before. -/
theorem Run.answers_traced_reopened : ∃ r : Stage, ∃ x ∈ r.2.state.answers, Run echoing r.1 r.2 ∧
    x.IsTraced (fun t _ a => a = echo t) r.1 ∧
    x.outcome.toOption.join.map (·.diagnostics.map (·.message)) = some ["int a;"] ∧
    ∀ m ∈ r.1.take (r.1.length + 1 - x.asked), m.server.text? x.url = some "int b;" := by
  have hruns : (((Stage.moved 0 opening).bind fun r => Stage.moved 2 (reopening r)).bind fun r =>
      (Stage.moved 1 r).bind (Stage.moved 2)).map (fun r => r.2.state.answers.any fun x =>
        x.outcome.toOption.join.map (·.diagnostics.map (·.message)) == some ["int a;"] &&
        (r.1.take (r.1.length + 1 - x.asked)).all fun m =>
          m.server.text? x.url == some "int b;") = some true := by decide +kernel
  obtain ⟨r, hr, hanswer⟩ := Option.map_eq_some_iff.mp hruns
  obtain ⟨r₂, hr₂, hr⟩ := Option.bind_eq_some_iff.mp hr
  obtain ⟨r₁, hr₁, hr₂⟩ := Option.bind_eq_some_iff.mp hr₂
  obtain ⟨r₃, hr₃, hr⟩ := Option.bind_eq_some_iff.mp hr
  have hopening : Run echoing opening.1 opening.2 :=
    ((Run.start attended rfl).event (.opened default 1 "int a;") rfl).call default
  have hreopening : Run echoing (reopening r₁).1 (reopening r₁).2 :=
    (((run_moved hopening hr₁).event (.closed default) trivial).event _
      (isProper_closed _ _ _ _)).call default
  have hrun : Run echoing r.1 r.2 := run_moved (run_moved (run_moved hreopening hr₂) hr₃) hr
  obtain ⟨x, hx, hold⟩ := List.any_eq_true.mp hanswer
  rw [Bool.and_eq_true, List.all_eq_true] at hold
  refine ⟨r, x, hx, hrun, hrun.answers_traced compiles_echoing hx, ?_, fun m hm => ?_⟩
  · exact eq_of_beq hold.1
  · exact eq_of_beq (hold.2 m hm)

end Reopened
end LanguageServer.Office
