import LanguageServer.Proofs.Server.Presence

/-! What is answered at a moment, next to what is answered by a server with the same settings, documents
and files that knows nothing of imports. -/
namespace LanguageServer.Survey

variable {o : Oracle} {texts : Set String} {urls : Set Url} {q : Server.Questions} {u : Url} {t : String}
  {p : Moment} {h k asked : List Moment} {m : Machine Survey} {w : Scene} {s s₀ : Server}

/-- The answer that is held for a question about a text. -/
def held (s : Server) (now : Instant) (u : Url) (t : String) : (what : What) → Option what.Value
  | .imports => (s.graph.importsOf (s.time now) u (Hash.ofText t)).1
  | .waterfall depth => (s.graph.waterfallOf (s.time now) u
      (depth.getD s.configuration.waterfallDepth) (Hash.ofText t)).1
  | .cycle => (s.graph.cycleOf (s.time now) u (Hash.ofText t)).1

/-- An answer that is held is given at once. -/
theorem advance_askText_of_held {now : Instant} {what : What} {v : what.Value}
    {e : Machine.Effects Server} (h : held e.state now u t what = some v) :
    (Machine.advance now (askText q u t what) e).2 = .done (.ok v) := by
  cases what with
  | imports =>
    simp only [held] at h
    simp only [askText, Server.importsOf, Server.timed, Bind.bind, Task.bind, Machine.advance,
      Lens.lift, Server.graphLens, h]
    rfl
  | waterfall depth =>
    simp only [held] at h
    simp only [askText, Server.waterfallOf, Server.timed, Bind.bind, Task.bind, Task.read,
      Machine.advance, Lens.lift, Server.graphLens, h]
    rfl
  | cycle =>
    simp only [held] at h
    simp only [askText, Server.cycleOf, Server.timed, Bind.bind, Task.bind, Machine.advance,
      Lens.lift, Server.graphLens, h]
    rfl

/-- All documents about which something is held are among these. -/
structure Watches (urls : Set Url) (g : ImportGraph) : Prop where
  imports : ∀ x ∈ g.imports.entries.pairs, x.1 ∈ urls
  waterfalls : ∀ x ∈ g.waterfalls.entries.pairs, x.1.1 ∈ urls
  cycles : ∀ x ∈ g.cycles.entries.pairs, x.1 ∈ urls

section Sound

variable (hs : Sound o texts w s) (hw : w.history = p :: k) (hsteady : Steady o texts urls (p :: k))
  (hfinds : Finds o texts urls p (p :: k))
include hs hw

theorem Sound.fits : p.Fits s := by
  obtain ⟨n, l, hn, hfits⟩ := hs.current
  obtain ⟨rfl, rfl⟩ := List.cons.inj (hw.symm.trans hn)
  exact hfits

include hsteady hfinds

/-- Where imports that count are found where they were found, all that is held is up to date. -/
theorem Sound.upToDate (hwatches : Watches urls s.graph) : UpToDate o texts s := by
  have hstory := hw ▸ hs.story
  have halike : p.Alike ⟨none, s⟩ := (hs.fits hw).alike
  have hnow (v : Url) : Unspoiled v [⟨none, s⟩] [⟨none, s⟩] := unspoiled_of_suffix List.suffix_rfl
  have hgood (files : List Url) (v : Url) (look : List Moment)
      (hlook : Holding (p :: k) files v look) :
      Unspoiled v look (p :: k) ∧ Holding [⟨none, s⟩] files v [⟨none, s⟩] :=
    ⟨hlook.2, hlook.1, hnow v⟩
  refine ⟨fun x hx => ?_, fun x hx => ?_, fun x hx => ?_⟩
  · obtain ⟨told, htold, hcounts, hset⟩ := hs.heldImports x hx
    rw [hw] at htold hcounts
    exact ⟨_, List.suffix_rfl, hnow x.1,
      hset.now (hwatches.imports x hx) htold hcounts hfinds halike⟩
  · have hsees := hs.heldWaterfalls x hx
    rw [hw] at hsees
    exact SeesWaterfall.now hstory hsteady hfinds halike (hgood _) (hwatches.waterfalls x hx) hsees
      List.suffix_rfl
  · have hsees := hs.heldCycles x hx
    rw [hw] at hsees
    exact SeesCycle.now hstory hsteady hfinds halike (hgood _) (hwatches.cycles x hx) hsees
      List.suffix_rfl

end Sound

section Quiet

/-- A survey that begins with a server, and in which nothing is told. -/
structure Quiet (o : Oracle) (q : Server.Questions) (texts : Set String) (s₀ : Server)
    (h : List Moment) (m : Machine Survey) : Prop where
  run : Run q texts s₀ h m
  silent : ∀ a ∈ h, a.event = none
  described : ∀ a ∈ h, ∀ b ∈ h, Describes o a b

theorem Run.exists_cons (hr : Run q texts s₀ h m) : ∃ p k, h = p :: k := by
  induction hr with
  | call _ _ _ ih => exact ih
  | beside _ _ ih => exact ih
  | _ => exact ⟨_, _, rfl⟩

namespace Quiet

variable (ho : o.Answers q) (hidle : s₀.graph.IsIdle) (hheld : UpToDate o texts s₀)
  (hwithin : Moment.IsWithin texts ⟨none, s₀⟩)
include ho hidle hheld hwithin

/-- Settings, documents and files stay as they are at the beginning. -/
theorem alike (hr : Run q texts s₀ h m) (hsilent : ∀ a ∈ h, a.event = none) :
    ∀ a ∈ h, Moment.Alike ⟨none, s₀⟩ a := by
  induction hr with
  | start => exact List.forall_mem_singleton.mpr (.refl _)
  | call x _ _ ih => exact ih hsilent
  | beside _ _ ih => exact ih hsilent
  | event e _ _ => cases hsilent _ List.mem_cons_self
  | @other h m s t hr hs ih =>
    have halike := ih (List.forall_mem_cons.mp hsilent).2
    obtain ⟨w, rfl, hsound, -⟩ := hr.sound ho hidle hheld fun a ha => (halike a ha).isWithin hwithin
    obtain ⟨n, l, hn, hfits⟩ := hsound.current
    refine List.forall_mem_cons.mpr ⟨(halike n (hn ▸ List.mem_cons_self)).trans ?_, halike⟩
    exact ⟨hfits.configuration.trans hs.configuration.symm, hfits.documents.trans hs.documents.symm,
      hfits.files.trans hs.files.symm⟩
  | @move h m n id hr hstep ih =>
    have halike := ih (List.forall_mem_cons.mp hsilent).2
    -- the history says what the server was before the move, so it fits the server after it
    obtain ⟨w, rfl, hbinds⟩ := hr.binds ho hidle hheld fun a ha => (halike a ha).isWithin hwithin
    obtain ⟨v, ⟨hv, -⟩, hbinds⟩ := hbinds.step terms_orderly (.refl w) hstep
    obtain ⟨x, l, hx, hfits⟩ := hbinds.holds.1.current
    have hmem : x ∈ w.history := hv ▸ hx ▸ List.mem_cons_self
    exact List.forall_mem_cons.mpr ⟨(halike x hmem).trans hfits.alike, halike⟩

variable (hquiet : Quiet o q texts s₀ h m)
include hquiet

theorem steady (hleads : Moment.Leads o texts urls ⟨none, s₀⟩) : Steady o texts urls h := by
  have halike := alike ho hidle hheld hwithin hquiet.run hquiet.silent
  refine ⟨fun u _ a b older hab hchanged => absurd ?_ hchanged, hquiet.described,
    fun a ha => hleads.of_alike (halike a ha)⟩
  have hb : b ∈ h := hab.subset (List.mem_cons_of_mem _ List.mem_cons_self)
  have hsame := (halike a (hab.subset List.mem_cons_self)).symm.trans (halike b hb)
  simp only [Moment.shows, Server.fileText?, hsame.files]

/-- What is answered is what there is to answer at any moment that is like the beginning. -/
theorem means (hleads : Moment.Leads o texts urls ⟨none, s₀⟩) (hp : Moment.Alike ⟨none, s₀⟩ p)
    {x : Query} {r : Except Failure (Option x.what.Value)} (hu : x.file ∈ urls)
    (hx : ⟨asked, x, r⟩ ∈ m.state.answers) : Means o texts [p] [p] x r := by
  have halike := alike ho hidle hheld hwithin hquiet.run hquiet.silent
  have hsteady := steady ho hidle hheld hwithin hquiet hleads
  have hsilent := hquiet.silent
  obtain ⟨w, rfl, hs, htraced⟩ := hquiet.run.sound ho hidle hheld
    fun a ha => (halike a ha).isWithin hwithin
  have hmeans := (htraced _ hx).2
  have hstory := hs.story
  obtain ⟨a, l, ha, -⟩ := hs.current
  have hnow (b : Moment) (hb : b ∈ w.history) : b.Alike a :=
    (halike b hb).symm.trans (halike a (ha ▸ List.mem_cons_self))
  have hfinds : Finds o texts urls a w.history := fun v _ b older hb _ t _ edges _ => by
    rw [(hnow b (hb.subset List.mem_cons_self)).locateEdge v]
  have hlike : a.Alike p := (halike a (ha ▸ List.mem_cons_self)).symm.trans hp
  rw [ha] at hmeans hsteady hfinds hstory hsilent
  exact hmeans.now hstory hsteady hfinds hlike hsilent hu

end Quiet

/-- What is answered by a server with the settings, documents and files of a moment that knows nothing of
imports is what there is to answer at the moment. -/
theorem Quiet.means_of_isNew (ho : o.Answers q) (hnew : s.graph.IsNew) (halike : p.Alike ⟨none, s⟩)
    (hwithin : p.IsWithin texts) (hleads : p.Leads o texts urls) (hquiet : Quiet o q texts s h m)
    {x : Query} {r : Except Failure (Option x.what.Value)} (hu : x.file ∈ urls)
    (hx : ⟨asked, x, r⟩ ∈ m.state.answers) : Means o texts [p] [p] x r :=
  hquiet.means ho hnew.isIdle (.of_isNew hnew) (halike.isWithin hwithin) (hleads.of_alike halike)
    halike.symm hu hx

end Quiet

section Checked

variable {imports : String → List ImportEdge} {known : List String} {files : List Url}

/-- Whether all texts in a history are among these, no analyses are held, imports of these files lead
to these files, and changes of these files are told at once. -/
def isSettled (imports : String → List ImportEdge) (known : List String) (files : List Url)
    (h : List Moment) : Bool :=
  h.all (fun n => n.knows known && n.server.analyses.entries.pairs.isEmpty &&
    files.all fun u => known.all fun t => (imports t).all fun e =>
      (n.server.locateEdge u e).url?.all files.contains) &&
  files.all fun u => decide (h.IsChain fun a b => (a.shows u).2 = (b.shows u).2 ∨ a.Spoils u)

section Settled

variable (hsettled : isSettled imports known files k = true)
include hsettled

theorem isWithin_of_isSettled : ∀ n ∈ k, n.IsWithin {t | t ∈ known} := fun n hn => by
  simp only [isSettled, Bool.and_eq_true, List.all_eq_true] at hsettled
  exact Moment.isWithin_of_knows (hsettled.1 n hn).1.1

theorem describes_of_isSettled : ∀ b ∈ k, ∀ n ∈ k, Describes o b n := fun b _ n hn x a _ ha => by
  simp only [isSettled, Bool.and_eq_true, List.all_eq_true] at hsettled
  simp [AnalysisStore.get?, Table.find?, List.isEmpty_iff.mp (hsettled.1 n hn).1.2] at ha

theorem steady_of_isSettled : Steady (.scripted imports) {t | t ∈ known} {u | u ∈ files} k where
  settled u hu := by
    simp only [isSettled, Bool.and_eq_true, List.all_eq_true, decide_eq_true_eq] at hsettled
    exact settled_of_isChain (hsettled.2 u hu)
  described := describes_of_isSettled hsettled
  leads n hn u hu t ht edges hedges e he v hv := by
    cases hedges
    simp only [isSettled, Bool.and_eq_true, List.all_eq_true] at hsettled
    simpa [hv] using (hsettled.1 n hn).2 u hu t ht e he

end Settled

theorem isSingle_scripted (imports : String → List ImportEdge) :
    (Oracle.scripted imports).IsSingle where
  imports _ _ _ _ hr hr' := .inl (hr.trans hr'.symm)
  symbols _ _ _ _ hr hr' := .inl (hr.trans hr'.symm)

/-- A server where another one is, with nothing known of imports. -/
def anew (s : Server) : Server := { s with graph := .empty ⟨0⟩ ⟨0⟩ ⟨0⟩ }

theorem Run.alike_anew (ho : o.Answers q) (hs₀ : s₀.graph.IsNew) (hr : Run q texts s₀ (p :: k) m)
    (hwithin : ∀ n ∈ p :: k, n.IsWithin texts) : p.Alike ⟨none, anew m.state.server⟩ := by
  obtain ⟨w, hw, hs, -⟩ := hr.sound ho hs₀.isIdle (.of_isNew hs₀) hwithin
  have halike := (hs.fits hw).alike
  exact ⟨halike.configuration, halike.documents, halike.files⟩

/-- Whether what is played from a server on comes to a survey that is as assumed. -/
def comesTo (imports : String → List ImportEdge) (known : List String) (files : List Url)
    (s : Server) (cues : List Cue) (test : Stage → Bool) : Bool :=
  (cues.foldlM (Cue.play (scripted imports)) (opening s)).any fun r =>
    isSettled imports known files r.1 && test r

theorem exists_of_comesTo {cues : List Cue} {test : Stage → Bool}
    (h : comesTo imports known files s₀ cues test = true)
    (hcues : ∀ x t, .ask x ∈ cues → x.text = some t → t ∈ known) :
    ∃ r : Stage, Run (scripted imports) {t | t ∈ known} s₀ r.1 r.2 ∧
      isSettled imports known files r.1 = true ∧ test r = true := by
  obtain ⟨r, hr, htest⟩ := (Option.any_eq_true _ _).mp h
  obtain ⟨hsettled, htest⟩ := Bool.and_eq_true_iff.mp htest
  exact ⟨r, Run.plays .start hcues hr, hsettled, htest⟩

/-- Whether what is played from a server on comes to a survey in which nothing is told. -/
def staysQuiet (imports : String → List ImportEdge) (known : List String) (files : List Url)
    (s : Server) (cues : List Cue) (test : Stage → Bool) : Bool :=
  comesTo imports known files s cues fun r => r.1.all (·.event.isNone) && test r

theorem exists_of_staysQuiet {cues : List Cue} {test : Stage → Bool}
    (h : staysQuiet imports known files s₀ cues test = true)
    (hcues : ∀ x t, .ask x ∈ cues → x.text = some t → t ∈ known) :
    ∃ r : Stage, Quiet (.scripted imports) (scripted imports) {t | t ∈ known} s₀ r.1 r.2 ∧
      test r = true := by
  obtain ⟨r, hrun, hsettled, htest⟩ := exists_of_comesTo h hcues
  obtain ⟨hsilent, htest⟩ := Bool.and_eq_true_iff.mp htest
  simp only [List.all_eq_true, Option.isNone_iff_eq_none] at hsilent
  exact ⟨r, ⟨hrun, hsilent, describes_of_isSettled hsettled⟩, htest⟩

end Checked

section Coherent

variable (ho : o.Answers q) (hsingle : o.IsSingle) (hinj : Set.InjOn Hash.ofText texts)
  (hs₀ : s₀.graph.IsNew) (hr : Run q texts s₀ (p :: k) m)
  (hwithin : ∀ n ∈ p :: k, n.IsWithin texts) (hsteady : Steady o texts urls (p :: k))
include ho hsingle hinj hs₀ hr hwithin hsteady

end Coherent

section Edited

end Edited

section Misled

variable (ho : o.Answers q) (hsingle : o.IsSingle) (hinj : Set.InjOn Hash.ofText texts)
  (hs₀ : s₀.graph.IsNew) (hr : Run q texts s₀ (p :: k) m)
  (hwithin : ∀ n ∈ p :: k, n.IsWithin texts) (hsteady : Steady o texts urls (p :: k))
include ho hsingle hinj hs₀ hr hwithin hsteady

/-- Where no flight is in the air and all that is held is up to date, whatever is asked next is answered
with what there is to answer now, and as by a server with the same settings, documents and files that
knows nothing of imports. All that is held is up to date unless imports that still count were found
elsewhere when they were told. -/
theorem Run.accords_or_misled (hgrounded : m.state.server.graph.IsGrounded)
    (hwatches : Watches urls m.state.server.graph) :
    (UpToDate o texts m.state.server → ∀ h n asked x r, x.file ∈ urls →
      Quiet o q texts m.state.server h n → ⟨asked, x, r⟩ ∈ n.state.answers →
      Means o texts [p] [p] x r ∧
      ∀ s h' n' asked' r', s.graph.IsNew → p.Alike ⟨none, s⟩ → Quiet o q texts s h' n' →
        ⟨asked', x, r'⟩ ∈ n'.state.answers → Accords o x r r' ∧ Accords o x r' r) ∧
    (UpToDate o texts m.state.server ∨ ∃ u ∈ urls, ∃ a l, a :: l <:+ p :: k ∧
      Unspoiled u (a :: l) (p :: k) ∧ ¬ FindsAlike o texts u a p) := by
  obtain ⟨w, hw, hs, -⟩ := hr.sound ho hs₀.isIdle (.of_isNew hs₀) hwithin
  have hp : p ∈ p :: k := List.mem_cons_self
  refine ⟨fun hheld h n asked x r hu hquiet hx => ?_, or_iff_not_imp_right.mpr fun hfinds => ?_⟩
  · have halike : p.Alike ⟨none, m.state.server⟩ := (hs.fits hw).alike
    have hmeans : Means o texts [p] [p] x r := hquiet.means ho (hs.isIdle hgrounded) hheld
      (halike.isWithin (hwithin p hp)) ((hsteady.leads p hp).of_alike halike) halike.symm hu hx
    refine ⟨hmeans, fun s h' n' asked' r' hnew halike' hquiet' hx' => ?_⟩
    have hmeans' := hquiet'.means_of_isNew ho hnew halike' (hwithin p hp) (hsteady.leads p hp) hu hx'
    have hdescribed := hsteady.described p hp p hp
    exact ⟨hmeans.unique hsingle hinj hdescribed hmeans', hmeans'.unique hsingle hinj hdescribed hmeans⟩
  · refine hs.upToDate hw hsteady (fun u hu a l ha hcounts => ?_) hwatches
    exact not_not.mp fun hmoved => hfinds ⟨u, hu, a, l, ha, hcounts, hmoved⟩

end Misled

section Created

/-- The document `a.pike` inherits a file that the process does not find. -/
def seeking (t : String) : List ImportEdge :=
  if t = "a" then [⟨.inheritProgram, "b.pike", none, none⟩] else []

def importsQuery : Query := ⟨fileUrl "/a.pike", none, .imports⟩

/-- The imports that this question was answered with. -/
def imports? : Answer → Option ImportSet
  | ⟨_, ⟨u, none, .imports⟩, .ok (some set)⟩ => if u = fileUrl "/a.pike" then some set else none
  | _ => none

theorem eq_of_imports? {x : Answer} {set : ImportSet} (h : imports? x = some set) :
    x = ⟨x.asked, importsQuery, .ok (some set)⟩ := by
  unfold imports? at h
  split at h
  · obtain ⟨rfl, hset⟩ := Option.ite_none_right_eq_some.mp h
    cases hset
    rfl
  · cases h

/-- The file `b.pike` is created, and the server is told, after the imports of `a.pike` were told. -/
def creating : List Cue :=
  [.event (.told (.opened (fileUrl "/a.pike") 1 "a")), .ask importsQuery] ++ [0, 1, 0].map .move ++
  [.event (.told (.filesChanged ⟨Table.empty.insert ["b.pike"] (.file [] 0), []⟩ [fileUrl "/b.pike"]))]

/-- The same question is asked next, where it is answered from the cache. -/
def askingNext : List Cue := [.ask importsQuery, .move 0]

def askingAfresh : List Cue := .ask importsQuery :: [0, 1, 0].map .move

def createdTexts : List String := ["a", ""]

def createdFiles : List Url := [fileUrl "/a.pike", fileUrl "/b.pike"]

theorem injOn_createdTexts : Set.InjOn Hash.ofText {t | t ∈ createdTexts} :=
  List.inj_on_of_nodup_map (by decide +kernel)

/-- Whether no flight is in the air, and something is held about these documents at most. -/
def isAtRest (files : List Url) (g : ImportGraph) : Bool :=
  g.importFlights.running.pairs.isEmpty && g.waterfallFlights.running.pairs.isEmpty &&
    g.cycleFlights.running.pairs.isEmpty && g.imports.entries.pairs.all (files.contains ·.1) &&
    g.waterfalls.entries.pairs.all (files.contains ·.1.1) &&
    g.cycles.entries.pairs.all (files.contains ·.1)

theorem of_isAtRest {files : List Url} {g : ImportGraph} (h : isAtRest files g = true) :
    g.IsGrounded ∧ Watches {u | u ∈ files} g := by
  simp only [isAtRest, Bool.and_eq_true, List.isEmpty_iff, List.all_eq_true,
    List.contains_iff_mem] at h
  obtain ⟨⟨⟨⟨⟨himports, hwaterfalls⟩, hcycles⟩, hheld⟩, hheld'⟩, hheld''⟩ := h
  exact ⟨⟨himports, hwaterfalls, hcycles⟩, hheld, hheld', hheld''⟩

/-- The new file is not among the imports that are told next, and it is where a server finds it that
knows nothing of imports. What is held is not up to date. -/
theorem Run.accords_or_misled_created : ∃ (p : Moment) (k : List Moment) (m : Machine Survey)
    (h : List Moment) (n : Machine Survey) (asked : List Moment) (set : ImportSet) (s : Server)
    (h' : List Moment) (n' : Machine Survey) (asked' : List Moment) (set' : ImportSet),
    Run (scripted seeking) {t | t ∈ createdTexts} beginner (p :: k) m ∧
    p.Spoils (fileUrl "/b.pike") ∧ m.state.server.graph.IsGrounded ∧
    Quiet (.scripted seeking) (scripted seeking) {t | t ∈ createdTexts} m.state.server h n ∧
    ⟨asked, importsQuery, .ok (some set)⟩ ∈ n.state.answers ∧ set.urls = [] ∧
    s.graph.IsNew ∧ p.Alike ⟨none, s⟩ ∧
    Quiet (.scripted seeking) (scripted seeking) {t | t ∈ createdTexts} s h' n' ∧
    ⟨asked', importsQuery, .ok (some set')⟩ ∈ n'.state.answers ∧ set'.urls = [fileUrl "/b.pike"] ∧
    ¬ UpToDate (.scripted seeking) {t | t ∈ createdTexts} m.state.server ∧
    ∃ u ∈ createdFiles, ∃ a l, a :: l <:+ p :: k ∧ Unspoiled u (a :: l) (p :: k) ∧
      ¬ FindsAlike (.scripted seeking) {t | t ∈ createdTexts} u a p := by
  have hplayed : comesTo seeking createdTexts createdFiles beginner creating (fun r =>
      r.1.head?.any (fun p => decide (p.Spoils (fileUrl "/b.pike"))) &&
      isAtRest createdFiles r.2.state.server.graph &&
      staysQuiet seeking createdTexts createdFiles r.2.state.server askingNext (fun r' =>
        r'.2.state.answers.any fun x => (imports? x).any fun set => set.urls == []) &&
      staysQuiet seeking createdTexts createdFiles (anew r.2.state.server) askingAfresh fun r' =>
        r'.2.state.answers.any fun x => (imports? x).any fun set => set.urls == [fileUrl "/b.pike"])
      = true := by decide +kernel
  have hcues : ∀ x t, .ask x ∈ creating ++ askingNext ++ askingAfresh → x.text = some t →
      t ∈ createdTexts := by
    intro x t hx ht
    obtain rfl : x = importsQuery := by simpa [creating, askingNext, askingAfresh] using hx
    cases ht
  obtain ⟨⟨h, m⟩, hrun, hsettled, htest⟩ := exists_of_comesTo hplayed fun x t hx =>
    hcues x t (List.mem_append_left _ (List.mem_append_left _ hx))
  obtain ⟨p, k, rfl⟩ := hrun.exists_cons
  obtain ⟨htest, hafresh⟩ := Bool.and_eq_true_iff.mp htest
  obtain ⟨htest, hnext⟩ := Bool.and_eq_true_iff.mp htest
  obtain ⟨hspoils, hrest⟩ := Bool.and_eq_true_iff.mp htest
  obtain ⟨hgrounded, hwatches⟩ := of_isAtRest hrest
  obtain ⟨r, hnext, hany⟩ := exists_of_staysQuiet hnext fun x t hx =>
    hcues x t (List.mem_append_left _ (List.mem_append_right _ hx))
  obtain ⟨r', hafresh, hany'⟩ := exists_of_staysQuiet hafresh fun x t hx =>
    hcues x t (List.mem_append_right _ hx)
  obtain ⟨x, hx, hset⟩ := List.any_eq_true.mp hany
  obtain ⟨set, hset, hmissing⟩ := (Option.any_eq_true _ _).mp hset
  obtain ⟨x', hx', hset'⟩ := List.any_eq_true.mp hany'
  obtain ⟨set', hset', hfound⟩ := (Option.any_eq_true _ _).mp hset'
  rw [eq_of_imports? hset] at hx
  rw [eq_of_imports? hset'] at hx'
  have hwithin := isWithin_of_isSettled hsettled
  have halike := hrun.alike_anew (answers_scripted _) ⟨_, _, _, rfl⟩ hwithin
  obtain ⟨haccords, hmisled⟩ := hrun.accords_or_misled (answers_scripted _) (isSingle_scripted _)
    injOn_createdTexts ⟨_, _, _, rfl⟩ hwithin (steady_of_isSettled hsettled) hgrounded hwatches
  have hstale : ¬ UpToDate (.scripted seeking) {t | t ∈ createdTexts} m.state.server := fun hheld => by
    obtain ⟨-, hsame⟩ := haccords hheld _ _ _ _ _ (by decide) hnext hx
    obtain heq | ⟨f, hf, -⟩ := (hsame _ _ _ _ _ ⟨_, _, _, rfl⟩ halike hafresh hx').1 _ rfl
    · rw [Option.some.inj (Except.ok.inj heq), eq_of_beq hmissing] at hfound
      cases hfound
    · cases hf
  exact ⟨p, k, m, r.1, r.2, x.asked, set, _, r'.1, r'.2, x'.asked, set', hrun,
    by simpa using hspoils, hgrounded, hnext, hx, eq_of_beq hmissing, ⟨_, _, _, rfl⟩, halike, hafresh,
    hx', eq_of_beq hfound, hstale, hmisled.resolve_left hstale⟩

end Created
end LanguageServer.Survey
