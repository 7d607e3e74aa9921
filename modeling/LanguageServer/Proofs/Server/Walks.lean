import LanguageServer.Proofs.Server.Recounting

/-! Walks in a survey: every document that a walk comes to is noted before it is read, and what the
walk comes to is what the readings yield that are noted. -/
namespace LanguageServer

namespace Survey

open ImportGraph.ReadSet (urls)

variable {o : Oracle} {texts : Set String} {q : Server.Questions} {w : Scene × List Answer} {s : Server}
  {u : Url} {t : String} {h h' look since : List Moment}

theorem Saw.url {x : Snapshot} {seen : List Moment} (hx : Saw u (some x) look seen) : x.url = u := by
  generalize hy : some x = y at hx
  cases hx with
  | shown hsnapshot =>
    obtain ⟨doc, -, heq⟩ := Option.map_eq_some_iff.mp (hy ▸ hsnapshot)
    exact heq ▸ rfl
  | onDisk =>
    obtain ⟨f, -, hx⟩ := Option.bind_eq_some_iff.mp hy.symm
    obtain ⟨_, -, rfl⟩ := Option.map_eq_some_iff.mp hx
    rfl

theorem Saw.text_mem {x : Snapshot} {seen : List Moment} (hx : Saw u (some x) look seen)
    (hwithin : ∀ m ∈ seen, m.IsWithin texts) : x.text ∈ texts := by
  generalize hy : some x = y at hx
  cases hx with
  | shown hsnapshot => exact (hwithin _ List.mem_cons_self u).1 x (hy ▸ hsnapshot)
  | onDisk =>
    obtain ⟨f, -, hx⟩ := Option.bind_eq_some_iff.mp hy.symm
    obtain ⟨t, ht, rfl⟩ := Option.map_eq_some_iff.mp hx
    exact (hwithin _ List.mem_cons_self u).2 t ht

theorem Extracted.hash {hash : UInt64} {set : ImportSet} {told : List Moment}
    (hx : Extracted o texts u hash (some set) told) : set.hash = hash := by
  cases hx with
  | found => rfl

section Notes

/-- All files that a walk has noted since it began, each with the epoch that it had at that moment. -/
structure Notes (since h : List Moment) (r : ReadSet) : Prop where
  generation : ∃ p older, since = p :: older ∧ p.generation = r.generation
  files : ∀ f ∈ r.files, ∃ p older, p.epoch f.1 = f.2 ∧ since <:+ p :: older ∧ p :: older <:+ h

/-- A look at a file still counted when a walk noted the file. -/
def Noted (r : ReadSet) (since h : List Moment) (u : Url) (look : List Moment) : Prop :=
  u ∈ urls r ∧ ∃ p older, (u, p.epoch u) ∈ r.files ∧ since <:+ p :: older ∧
    p :: older <:+ h ∧ Unspoiled u look (p :: older)

variable {r r' : ReadSet}

theorem Notes.of_suffix (hr : Notes since h r) (hh : h <:+ h') : Notes since h' r where
  generation := hr.generation
  files f hf := by
    obtain ⟨p, older, hepoch, hsince, hp⟩ := hr.files f hf
    exact ⟨p, older, hepoch, hsince, hp.trans hh⟩

/-- A look that counts now has counted when its file was noted. -/
theorem Notes.noted (hr : Notes since h r) (hu : u ∈ urls r)
    (hlook : Unspoiled u look h) : Noted r since h u look := by
  obtain ⟨f, hf, rfl⟩ := List.mem_map.mp hu
  obtain ⟨p, older, hepoch, hsince, hp⟩ := hr.files f hf
  exact ⟨hu, p, older, by rwa [hepoch], hsince, hp, hlook.of_suffix hp⟩

theorem Noted.mono (hr : Noted r since h u look) (hfiles : ∀ f ∈ r.files, f ∈ r'.files)
    (hh : h <:+ h') : Noted r' since h' u look := by
  obtain ⟨hu, p, older, hp, hsince, hph, hlook⟩ := hr
  exact ⟨List.map_subset _ hfiles hu, p, older, hfiles _ hp, hsince, hph.trans hh, hlook⟩

theorem Noted.of_suffix (hr : Noted r since h u look) (hh : h <:+ h') : Noted r since h' u look :=
  hr.mono (fun _ hf => hf) hh

theorem Noted.unspoiled (hr : Noted r since h u look) : Unspoiled u look since := by
  obtain ⟨-, p, older, -, hsince, -, hlook⟩ := hr
  exact hlook.of_suffix hsince

/-- What was noted and has not changed still counts. -/
theorem Noted.holding (hr : Noted r since h u look) (hn : Notes since h r) {m : Moment}
    {k : List Moment} (hm : h = m :: k) (hs : Story h) {g : ImportGraph}
    (hgeneration : m.generation = g.generation) (hepochs : m.server.graph.epochs = g.epochs)
    (hsame : g.isUnchanged r = true) : Holding h (urls r) u look := by
  subst hm
  obtain ⟨hu, p, older, hp, hsince, hph, hlook⟩ := hr
  obtain ⟨b, bs, rfl, hb⟩ := hn.generation
  simp only [ImportGraph.isUnchanged, Bool.and_eq_true, decide_eq_true_eq, List.all_eq_true]
    at hsame
  refine ⟨hu, hlook.trans (hs.unspoiled hph hsince ?_ ?_) List.suffix_rfl hph⟩
  · exact (hgeneration.trans hsame.1).trans hb.symm
  · have hepoch : g.epoch u = p.epoch u := hsame.2 _ hp
    simpa [Moment.epoch, ImportGraph.epoch, hepochs] using hepoch

/-- The files that a walk goes on with are noted as they are now. -/
theorem Notes.record (hr : Notes since h r) {m : Moment} {k : List Moment} (hm : h = m :: k)
    (hsince : since <:+ h) {g : ImportGraph} (hepochs : m.server.graph.epochs = g.epochs) (u : Url) :
    Notes since h (g.record u r) ∧ (∀ f ∈ r.files, f ∈ (g.record u r).files) ∧
      u ∈ urls (g.record u r) := by
  unfold ImportGraph.record
  split
  · next hnoted =>
    obtain ⟨f, hf, hu⟩ := List.any_eq_true.mp hnoted
    exact ⟨hr, fun f hf => hf, List.mem_map.mpr ⟨f, hf, of_decide_eq_true hu⟩⟩
  · refine ⟨⟨hr.generation, fun f hf => ?_⟩, fun f hf => List.mem_append_left _ hf, ?_⟩
    · obtain hf | hf := List.mem_append.mp hf
      · exact hr.files f hf
      · cases List.mem_singleton.mp hf
        subst hm
        exact ⟨m, k, by simp only [Moment.epoch, ImportGraph.epoch, hepochs], hsince,
          List.suffix_rfl⟩
    · simp [urls]

/-- Who begins to read has noted the first document as it is now. -/
theorem Recounts.notes_root {ω : Type} {c : Contract ω Server} {history : ω → List Moment}
    (hc : Recounts c history) {w : ω} (hs : c.holds w s) (root : Url) :
    Notes (history w) (history w) (s.graph.record root s.graph.startReads) ∧
      root ∈ urls (s.graph.record root s.graph.startReads) := by
  obtain ⟨m, h, hh, hm⟩ := hc.current w s hs
  have hstart : Notes (history w) (history w) s.graph.startReads :=
    ⟨⟨m, h, hh, hm.generation⟩, by simp [ImportGraph.startReads]⟩
  obtain ⟨hnotes, -, hroot⟩ := hstart.record hh List.suffix_rfl hm.epochs root
  exact ⟨hnotes, hroot⟩

end Notes

section Meets

/-- The worlds of the terms tell what has happened. -/
theorem serverTerms_recounts : Recounts (serverTerms o texts) (·.1.history) where
  orderly := serverTerms_orderly
  others_refl w := .refl w.1
  others _ _ hv := hv.history
  current _ _ hs := hs.1.current
  abides := holds_of_abides

variable (hs : (serverTerms o texts).holds w s)
include hs

theorem current_of_holds : ∃ m h, w.1.history = m :: h ∧ m.Fits s := hs.1.current

/-- Imports that are held for a text still count. -/
theorem meets_heldImports (u : Url) (hash : UInt64)
    {Q : Option ImportSet → Scene × List Answer → Server → Prop}
    (hsome : ∀ set s told, (serverTerms o texts).holds w s → told <:+ w.1.history →
      Unspoiled u told w.1.history → Extracted o texts u hash (some set) told → Q (some set) w s)
    (hnone : ∀ s, (serverTerms o texts).holds w s → Q none w s) :
    (Server.timed Server.graphLens (ImportGraph.importsOf · u hash)).Meets (serverTerms o texts)
      Q w s := by
  rw [Server.meets_timed]
  intro now
  have hs' : (serverTerms o texts).holds w
      { s with graph := (s.graph.importsOf (s.time now) u hash).2 } := by
    refine ⟨hs.1.regraph rfl rfl ⟨rfl, rfl, rfl⟩ (fun x hx => .inl ?_) (fun x hx => .inl hx)
      (fun x hx => .inl hx), hs.2⟩
    exact Timed.Cache.mem_settle hx
  change Q (s.graph.importsOf (s.time now) u hash).1 w _
  cases hset : (s.graph.importsOf (s.time now) u hash).1 with
  | none => exact hnone _ hs'
  | some set =>
    obtain ⟨told, htold, hcounts, hx⟩ := hs.1.extracted_importsOf hset
    exact hsome _ _ told hs' htold hcounts hx

/-- A flight for the imports of a text tells what was found of them after it was asked. -/
theorem meets_askImports (ho : o.Answers q) (u : Url) (ht : t ∈ texts)
    {Q : Except Failure ImportSet → Scene × List Answer → Server → Prop}
    (hQ : ∀ r v s told, w.1.Grows v.1 → (serverTerms o texts).holds v s → w.1.history <:+ told →
      told <:+ v.1.history → Learns o texts u (Hash.ofText t) told r → Q r v s) :
    (Server.askImports u t q).Meets (serverTerms o texts) Q w s :=
  serverTerms_recounts.meets_askImports extractions_serves rfl rfl hs ho u ht hQ

/-- Imports of a file on the way were told after they were asked for, or what was told counted then. -/
theorem meets_importsOnTheWay (ho : o.Answers q) (u : Url) (ht : t ∈ texts)
    {Q : Except Failure ImportSet → Scene × List Answer → Server → Prop}
    (hQ : ∀ r v s told, w.1.Grows v.1 → (serverTerms o texts).holds v s → told <:+ v.1.history →
      Unspoiled u told w.1.history → Learns o texts u (Hash.ofText t) told r → Q r v s) :
    (Server.importsOnTheWay u t q).Meets (serverTerms o texts) Q w s := by
  rw [Server.importsOnTheWay, Task.meets_then]
  refine meets_heldImports hs u _ (fun set s told hs htold hcounts hx => ?_) fun s hs => ?_
  · exact hQ _ w s told (.refl _) hs htold hcounts hx
  · refine meets_askImports hs ho u ht fun r v s told hv hs hlater htold hr => ?_
    exact hQ r v s told hv hs htold (unspoiled_of_suffix hlater) hr

/-- The imports of a document are kept for it as long as they count. -/
theorem meets_importsOf (ho : o.Answers q) (u : Url) (ht : t ∈ texts)
    {Q : Except Failure ImportSet → Scene × List Answer → Server → Prop}
    (hQ : ∀ r v s told, w.1.Grows v.1 → (serverTerms o texts).holds v s → told <:+ v.1.history →
      Unspoiled u told w.1.history → Learns o texts u (Hash.ofText t) told r → Q r v s) :
    (Server.importsOf u t q).Meets (serverTerms o texts) Q w s := by
  rw [Server.importsOf, Task.meets_then]
  refine meets_heldImports hs u _ (fun set s told hs htold hcounts hx => ?_) fun s hs => ?_
  · exact hQ _ w s told (.refl _) hs htold hcounts hx
  · simp only [Server.record, Task.meets_then, Task.meets_read]
    obtain ⟨hnotes, hu⟩ := serverTerms_recounts.notes_root hs u
    refine meets_askImports hs ho u ht fun r v s' told hv hs' hlater htold hr => ?_
    cases r with
    | error f => exact hQ _ v s' told hv hs' htold (unspoiled_of_suffix hlater) hr
    | ok set =>
      rw [Task.meets_then, Server.meets_timed]
      refine fun now => hQ _ v _ told hv ?_ htold (unspoiled_of_suffix hlater) hr
      refine ⟨hs'.1.regraph rfl rfl ⟨rfl, rfl, rfl⟩ (fun x hx => ?_) (fun x hx => .inl hx)
        (fun x hx => .inl hx), hs'.2⟩
      refine (ImportGraph.mem_storeIfUnchanged hx).imp_right fun ⟨hsame, hx⟩ => ?_
      obtain ⟨n, l, hl, hn⟩ := current_of_holds hs'
      have hnoted := (hnotes.noted hu (unspoiled_of_suffix hlater)).of_suffix hv.history
      have hholding := hnoted.holding (hnotes.of_suffix hv.history) hl hs'.1.story hn.generation
        hn.epochs hsame
      subst hx
      exact ⟨told, htold, hholding.2, hr.hash ▸ hr⟩

/-- Only the imports of the root of a walk are kept; either way they are told as on the way. -/
theorem meets_importsFrom (ho : o.Answers q) (root u : Url) (ht : t ∈ texts) {α : Type}
    {k : Except Failure ImportSet → Server.Job α} {Q : α → Scene × List Answer → Server → Prop}
    (hk : ∀ r v s told, w.1.Grows v.1 → (serverTerms o texts).holds v s → told <:+ v.1.history →
      Unspoiled u told w.1.history → Learns o texts u (Hash.ofText t) told r →
      (k r).Meets (serverTerms o texts) Q v s) :
    (if u = root then Server.importsOf u t q >>= k
      else Server.importsOnTheWay u t q >>= k).Meets (serverTerms o texts) Q w s := by
  split
  · exact (Task.meets_then _ _ _).mpr (meets_importsOf hs ho u ht hk)
  · exact (Task.meets_then _ _ _).mpr (meets_importsOnTheWay hs ho u ht hk)

end Meets

section Waterfall

variable (o texts) in
/-- A walk for a waterfall between two rounds: it goes on by what it has read of files that it has
noted, and the files of its queue are among these. -/
structure Walking (root : Url) (source : String) (limit : Nat) (since h : List Moment)
    (walk : WaterfallWalk) (r : ReadSet) : Prop where
  begun : since <:+ h
  notes : Notes since h r
  reached : Relation.ReflTransGen
    (WaterfallWalk.Step (tidings o texts (Tops o) (Noted r since h) h) root)
    (WaterfallWalk.start root source limit) walk
  queue : ∀ x ∈ walk.queue, x.text ∈ texts ∧ x.file ∈ urls r

variable {root file : Url} {source : String} {limit : Nat} {walk next : WaterfallWalk}
  {r r' : ReadSet} {via : ImportKind}

theorem Walking.of_suffix (hw : Walking o texts root source limit since h walk r) (hh : h <:+ h') :
    Walking o texts root source limit since h' walk r where
  begun := hw.begun.trans hh
  notes := hw.notes.of_suffix hh
  reached := WaterfallWalk.steps_mono hw.reached
    (tidings_extends (fun _ _ hr => hr.of_suffix hh) hh)
  queue := hw.queue

/-- More files have been noted. -/
theorem Walking.record (hw : Walking o texts root source limit since h walk r)
    (hr' : Notes since h r') (hfiles : ∀ f ∈ r.files, f ∈ r'.files) :
    Walking o texts root source limit since h walk r' where
  begun := hw.begun
  notes := hr'
  reached := WaterfallWalk.steps_mono hw.reached
    (tidings_extends (fun _ _ hr => hr.mono hfiles List.suffix_rfl) List.suffix_rfl)
  queue x hx := ⟨(hw.queue x hx).1, List.map_subset _ hfiles (hw.queue x hx).2⟩

theorem Walking.step (hw : Walking o texts root source limit since h walk r)
    (hstep : WaterfallWalk.Step (tidings o texts (Tops o) (Noted r since h) h) root walk next)
    (hqueue : ∀ x ∈ next.queue, x ∈ walk.queue ∨ x.text ∈ texts ∧ x.file ∈ urls r) :
    Walking o texts root source limit since h next r where
  begun := hw.begun
  notes := hw.notes
  reached := hw.reached.tail hstep
  queue x hx := (hqueue x hx).elim (hw.queue x) id

variable (o texts) in
/-- What a walk comes to by what it has read of files that it has noted. -/
def WaterfallEnd (root : Url) (source : String) (limit : Nat) (since h : List Moment) :
    Except Failure (List WaterfallSymbol × ReadSet) → Prop
  | .ok (found, r) => Notes since h r ∧
    WaterfallWalk.Yields (tidings o texts (Tops o) (Noted r since h) h) root source limit found
  | .error f => o.Breaks f ∨
    WaterfallWalk.Fails (tidings o texts (Tops o) (Unspoiled · · since) h) root source limit

section Expand

variable {x : WaterfallWalk.Source} {told : List Moment}
  (hw : Walking o texts root source limit since h walk r) (hev : walk.next = .expand x next)
include hw hev

theorem Walking.queued : x.text ∈ texts ∧ x.file ∈ urls r := by
  have hnext := walk.next_spec
  rw [hev] at hnext
  exact hw.queue x (hnext.1.subset List.mem_cons_self)

variable (hh : h <:+ h') (htold : told <:+ h') (hcounts : Unspoiled x.file told h)
include hh htold hcounts

theorem Walking.imports {set : Option ImportSet}
    (hset : Extracted o texts x.file (Hash.ofText x.text) set told) :
    (tidings o texts (Tops o) (Noted r since h') h').imports x.file x.text set :=
  ⟨told, (hw.notes.noted (hw.queued hev).2 hcounts).of_suffix hh, htold, hset⟩

theorem Walking.follow {set : ImportSet}
    (hset : Extracted o texts x.file (Hash.ofText x.text) (some set) told) :
    Walking o texts root source limit since h' (next.follow x set.edges) r := by
  have hnext := walk.next_spec
  rw [hev] at hnext
  refine (hw.of_suffix hh).step (.follow hev (hw.imports hev hh htold hcounts hset)) fun y hy => ?_
  exact .inl (hnext.1.subset (List.mem_cons_of_mem _ hy))

theorem Walking.leave (hset : Extracted o texts x.file (Hash.ofText x.text) none told)
    (hroot : x.file ≠ root) : Walking o texts root source limit since h' next r := by
  have hnext := walk.next_spec
  rw [hev] at hnext
  refine (hw.of_suffix hh).step (.leave hev (hw.imports hev hh htold hcounts hset) hroot)
    fun y hy => ?_
  exact .inl (hnext.1.subset (List.mem_cons_of_mem _ hy))

theorem Walking.fail (hset : Extracted o texts x.file (Hash.ofText x.text) none told)
    (hroot : x.file = root) {f : Failure} :
    WaterfallEnd o texts root source limit since h' (.error f) :=
  .inr (WaterfallWalk.Fails.mono ⟨walk, x, next, (hw.of_suffix hh).reached, hev, hroot,
    hw.imports hev hh htold hcounts hset⟩
    (tidings_extends (fun _ _ hr => hr.unspoiled) List.suffix_rfl))

end Expand

section Visit

variable {seen : List Moment} (hw : Walking o texts root source limit since h walk r)
  (hev : walk.next = .visit file via next) (hfile : file ∈ urls r) (hh : h <:+ h')
  (hlook : h <:+ look) (hseen : seen <:+ h')
include hw hev hfile hh hlook hseen

theorem Walking.miss (hsaw : Saw file none look seen) :
    Walking o texts root source limit since h' next r := by
  have hnext := walk.next_spec
  rw [hev] at hnext
  have hnoted := (hw.notes.noted hfile (unspoiled_of_suffix hlook)).of_suffix hh
  refine (hw.of_suffix hh).step (.miss hev (.missing hnoted hseen hsaw)) fun y hy => ?_
  exact .inl (hnext.1.subset hy)

theorem Walking.enter {x : Snapshot} {symbols : List Symbol} (hsaw : Saw file (some x) look seen)
    (htops : Tops o x seen symbols) (htext : x.text ∈ texts) :
    Walking o texts root source limit since h' (next.enter file via x.text symbols) r := by
  have hnext := walk.next_spec
  rw [hev] at hnext
  have hnoted := (hw.notes.noted hfile (unspoiled_of_suffix hlook)).of_suffix hh
  refine (hw.of_suffix hh).step (.enter hev (.read hnoted hseen hsaw htops)) fun y hy => ?_
  rw [WaterfallWalk.queue_enter] at hy
  obtain hy | hy := List.mem_append.mp hy
  · exact .inl (hnext.1.subset hy)
  · cases List.mem_singleton.mp hy
    exact .inr ⟨htext, hfile⟩

end Visit

/-- A walk comes to what its readings yield. -/
theorem meets_walkWaterfall (ho : o.Answers q) (hs : (serverTerms o texts).holds w s) (root : Url)
    (ht : t ∈ texts) (limit : Nat)
    {Q : Except Failure (List WaterfallSymbol × ReadSet) → Scene × List Answer → Server → Prop}
    (hQ : ∀ r v s, w.1.Grows v.1 → (serverTerms o texts).holds v s →
      WaterfallEnd o texts root t limit w.1.history v.1.history r → Q r v s) :
    (Server.walkWaterfall root t limit q).Meets (serverTerms o texts) Q w s := by
  simp only [Server.walkWaterfall, Server.record, Task.meets_then, Task.meets_read]
  refine Task.Meets.repeatFrom (fun b v s => (serverTerms o texts).holds v s ∧ w.1.Grows v.1 ∧
    Walking o texts root t limit w.1.history v.1.history b.1 b.2) (fun _ => 0)
    ⟨hs, .refl _, ?_⟩ ?_
  · obtain ⟨hnotes, hroot⟩ := serverTerms_recounts.notes_root hs root
    exact ⟨List.suffix_rfl, hnotes, .refl, by simpa [WaterfallWalk.start] using ⟨ht, hroot⟩⟩
  · rintro ⟨walk, reads⟩ v s ⟨hs, hwv, hwalk⟩
    refine serverTerms_recounts.parks hs fun v₁ s₁ hv hs₁ => ?_
    replace hwalk := hwalk.of_suffix hv.history
    replace hwv := hwv.trans hv
    cases hev : walk.next with
    | finished found => exact hQ _ v₁ s₁ hwv hs₁ ⟨hwalk.notes, walk, hwalk.reached, hev⟩
    | expand x next =>
      refine meets_importsFrom hs₁ ho root x.file (hwalk.queued hev).1
        fun r v₂ s₂ told hv hs₂ htold hcounts hr => ?_
      cases r with
      | ok set =>
        exact ⟨⟨hs₂, hwv.trans hv, hwalk.follow hev hv.history htold hcounts hr⟩, False.elim⟩
      | error f =>
        -- a failure ends the walk at its root, or when the process has to be started again
        by_cases hends : x.file = root ∨ f.needsRestart = true
        · simp only [hends, if_true, Task.meets_pure]
          refine hQ _ v₂ s₂ (hwv.trans hv) hs₂ ?_
          obtain hbreaks | ⟨hlasting, hset⟩ := hr
          · exact .inl hbreaks
          · have hroot := hends.resolve_right (by simp [hlasting])
            exact hwalk.fail hev hv.history htold hcounts hset hroot
        · simp only [hends, if_false, Task.meets_pure]
          obtain ⟨hroot, hlasting⟩ := not_or.mp hends
          have hset := (hr.resolve_left fun hbreaks => hlasting hbreaks.1).2
          exact ⟨⟨hs₂, hwv.trans hv, hwalk.leave hev hv.history htold hcounts hset hroot⟩,
            False.elim⟩
    | visit file via next =>
      simp only [Task.meets_then, Task.meets_read]
      obtain ⟨m, h, hh, hm⟩ := current_of_holds hs₁
      obtain ⟨hnotes, hfiles, hfile⟩ := hwalk.notes.record hh hwalk.begun hm.epochs file
      replace hwalk := hwalk.record hnotes hfiles
      refine serverTerms_recounts.meets_document? hs₁ file fun x v₂ s₂ look hv hs₂ hlook hsaw => ?_
      replace hwv := hwv.trans hv
      cases x with
      | none =>
        exact ⟨⟨hs₂, hwv, hwalk.miss hev hfile hv.history hlook List.suffix_rfl hsaw⟩, False.elim⟩
      | some x =>
        rw [Task.meets_then]
        refine serverTerms_recounts.meets_topSymbols hs₂ ho x (fun symbols v₃ s₃ hv' hs₃ htops => ?_)
          fun f v₃ s₃ hf hv' hs₃ => ?_
        · exact ⟨⟨hs₃, hwv.trans hv', hwalk.enter hev hfile (hv.trans hv').history hlook hv'.history
            hsaw htops (hsaw.text_mem hs₂.1.within)⟩, False.elim⟩
        · exact hQ _ v₃ s₃ (hwv.trans hv') hs₃ (.inl hf)

end Waterfall

section Cycle

variable (o texts) in
/-- A search for a cycle between two rounds. -/
structure Searching (root : Url) (source : String) (since h : List Moment) (walk : CycleWalk)
    (r : ReadSet) : Prop where
  begun : since <:+ h
  notes : Notes since h r
  reached : ∃ set : ImportSet,
    (tidings o texts Bare (Noted r since h) h).imports root source (some set) ∧
    Relation.ReflTransGen
      (CycleWalk.Step (tidings o texts Bare (Noted r since h) h))
      (CycleWalk.start root set.urls) walk

variable {root file : Url} {source : String} {walk next : CycleWalk} {r r' : ReadSet}

theorem Searching.mono (hw : Searching o texts root source since h walk r) (hh : h <:+ h')
    (hr' : Notes since h' r') (hfiles : ∀ f ∈ r.files, f ∈ r'.files) :
    Searching o texts root source since h' walk r' := by
  obtain ⟨hbegun, -, set, hset, hreached⟩ := hw
  have hextends : (tidings o texts Bare (Noted r since h) h).Extends
      (tidings o texts Bare (Noted r' since h') h') :=
    tidings_extends (fun _ _ hr => hr.mono hfiles hh) hh
  exact ⟨hbegun.trans hh, hr', set, hextends.imports _ _ _ hset,
    CycleWalk.steps_mono hreached hextends⟩

theorem Searching.of_suffix (hw : Searching o texts root source since h walk r) (hh : h <:+ h') :
    Searching o texts root source since h' walk r :=
  hw.mono hh (hw.notes.of_suffix hh) fun _ hf => hf

theorem Searching.step (hw : Searching o texts root source since h walk r)
    (hstep : CycleWalk.Step (tidings o texts Bare (Noted r since h) h) walk next) :
    Searching o texts root source since h next r := by
  obtain ⟨hbegun, hnotes, set, hset, hreached⟩ := hw
  exact ⟨hbegun, hnotes, set, hset, hreached.tail hstep⟩

variable (o texts) in
/-- What a search comes to by what it has read of files that it has noted. -/
def CycleEnd (root : Url) (source : String) (since h : List Moment) :
    Except Failure (CycleVerdict × ReadSet) → Prop
  | .ok (verdict, r) => Notes since h r ∧
    CycleWalk.Yields (tidings o texts Bare (Noted r since h) h) root source verdict
  | .error f => o.Breaks f ∨
    CycleWalk.Fails (tidings o texts Bare (Unspoiled · · since) h) root source

section Visit

variable {seen : List Moment} (hw : Searching o texts root source since h walk r)
  (hev : walk.next = .visit file next) (hfile : file ∈ urls r) (hh : h <:+ h')
  (hlook : h <:+ look) (hseen : seen <:+ h')
include hw hev hfile hh hlook hseen

theorem Searching.miss (hsaw : Saw file none look seen) :
    Searching o texts root source since h' (next.enter file none) r := by
  have hnoted := (hw.notes.noted hfile (unspoiled_of_suffix hlook)).of_suffix hh
  exact (hw.of_suffix hh).step (.miss hev (.missing hnoted hseen hsaw))

theorem Searching.enter {x : Snapshot} {told : List Moment} {set : Option ImportSet}
    (hsaw : Saw file (some x) look seen) (htold : told <:+ h') (hcounts : Unspoiled file told h)
    (hset : Extracted o texts file (Hash.ofText x.text) set told) :
    Searching o texts root source since h' (next.enter file (some (set.elim [] (·.urls)))) r := by
  have hnoted := (hw.notes.noted hfile (unspoiled_of_suffix hlook)).of_suffix hh
  have hread : (tidings o texts Bare (Noted r since h') h').reads file
      (some (x.text, ())) := .read hnoted hseen hsaw trivial
  have himports : (tidings o texts Bare (Noted r since h') h').imports file
      x.text set :=
    ⟨told, (hw.notes.noted hfile hcounts).of_suffix hh, htold, hset⟩
  cases set with
  | some set => exact (hw.of_suffix hh).step (.enter hev hread himports)
  | none => exact (hw.of_suffix hh).step (.blank hev hread himports)

end Visit

/-- A search comes to what its readings yield. -/
theorem meets_walkCycle (ho : o.Answers q) (hs : (serverTerms o texts).holds w s) (root : Url)
    (ht : t ∈ texts)
    {Q : Except Failure (CycleVerdict × ReadSet) → Scene × List Answer → Server → Prop}
    (hQ : ∀ r v s, w.1.Grows v.1 → (serverTerms o texts).holds v s →
      CycleEnd o texts root t w.1.history v.1.history r → Q r v s) :
    (Server.walkCycle root t q).Meets (serverTerms o texts) Q w s := by
  obtain ⟨hnotes, hroot⟩ := serverTerms_recounts.notes_root hs root
  simp only [Server.walkCycle, Server.record, Task.meets_then, Task.meets_read]
  refine meets_importsOf hs ho root ht fun r v s told hv hs htold hcounts hr => ?_
  have hnoted := (hnotes.noted hroot hcounts).of_suffix hv.history
  cases r with
  | error f =>
    exact hQ _ v s hv hs (hr.imp_right fun hset => ⟨told, hnoted.unspoiled, htold, hset.2⟩)
  | ok set =>
    refine Task.Meets.repeatFrom (fun b v s => (serverTerms o texts).holds v s ∧ w.1.Grows v.1 ∧
      Searching o texts root t w.1.history v.1.history b.1 b.2) (fun _ => 0)
      ⟨hs, hv, hv.history, hnotes.of_suffix hv.history, set, ⟨told, hnoted, htold, hr⟩, .refl⟩ ?_
    rintro ⟨walk, reads⟩ v s ⟨hs, hwv, hwalk⟩
    refine serverTerms_recounts.parks hs fun v₁ s₁ hv hs₁ => ?_
    replace hwalk := hwalk.of_suffix hv.history
    replace hwv := hwv.trans hv
    cases hev : walk.next with
    | verdict verdict =>
      obtain ⟨-, hnotes, set, hset, hreached⟩ := hwalk
      exact hQ _ v₁ s₁ hwv hs₁ ⟨hnotes, set, walk, hset, hreached, hev⟩
    | visit file next =>
      simp only [Task.meets_then, Task.meets_read]
      obtain ⟨m, h, hh, hm⟩ := current_of_holds hs₁
      obtain ⟨hnotes, hfiles, hfile⟩ := hwalk.notes.record hh hwalk.begun hm.epochs file
      replace hwalk := hwalk.mono List.suffix_rfl hnotes hfiles
      refine serverTerms_recounts.meets_document? hs₁ file fun x v₂ s₂ look hv hs₂ hlook hsaw => ?_
      replace hwv := hwv.trans hv
      cases x with
      | none =>
        exact ⟨⟨hs₂, hwv, hwalk.miss hev hfile hv.history hlook List.suffix_rfl hsaw⟩, False.elim⟩
      | some x =>
        rw [Task.meets_then]
        refine meets_importsOnTheWay hs₂ ho file (hsaw.text_mem hs₂.1.within)
          fun r v₃ s₃ told hv' hs₃ htold hcounts hr => ?_
        -- a file whose imports cannot be told is entered all the same
        have henter {set : Option ImportSet}
            (hset : Extracted o texts file (Hash.ofText x.text) set told) :=
          hwalk.enter hev hfile (hv.trans hv').history hlook hv'.history hsaw htold
            (hcounts.of_suffix hv.history) hset
        cases r with
        | ok set => exact ⟨⟨hs₃, hwv.trans hv', henter hr⟩, False.elim⟩
        | error f =>
          cases hf : f.needsRestart with
          | true =>
            simp only [hf, if_true, Task.meets_pure]
            exact hQ _ v₃ s₃ (hwv.trans hv') hs₃ (.inl (hr.resolve_right fun hset => by
              simp [hf] at hset))
          | false =>
            simp only [hf, Bool.false_eq_true, if_false, Task.meets_pure]
            have hset := (hr.resolve_left fun hbreaks => by simp [hf, Oracle.Breaks] at hbreaks).2
            exact ⟨⟨hs₃, hwv.trans hv', henter hset⟩, False.elim⟩

end Cycle
end Survey
end LanguageServer
