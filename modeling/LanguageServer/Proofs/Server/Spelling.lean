import LanguageServer.Proofs.Server.Tracing

/-! Documents go by their URLs, as these are spelled. An open document hides its file from all that goes
by the same URL, and imports go by the URL that is made of a path. -/
namespace LanguageServer

/-- What is told of one file is told of one text. -/
def Tidings.telling {α : Type} (T : Tidings α) (u : Url) (t : String) : Tidings α where
  reads v x := T.reads v x ∧ (v = u → ∃ a, x = some (t, a))
  imports := T.imports

/-- The text that is read of a document that is not open is that of its file. -/
theorem DocumentStore.text_fromDisk? {files : FileTree} {u : Url} {p : Path}
    (h : u.toFilePath? = some p) : (fromDisk? files u).map (·.text) = files.text? p := by
  cases ht : files.text? p with
  | none => simp [fromDisk?, h, ht]
  | some t =>
    obtain ⟨status, hstatus⟩ := Option.isSome_iff_exists.mp (FileTree.status?_isSome ht)
    simp [fromDisk?, statOf?, h, ht, hstatus]

namespace ImportGraph

/-- What an invalidation leaves was not derived from the document. -/
theorem mem_invalidate {g : ImportGraph} {u : Url} :
    (∀ x ∈ (g.invalidate u).waterfalls.entries.pairs,
      x ∈ g.waterfalls.entries.pairs ∧ x.1.1 ≠ u ∧ u ∉ x.2.value.files) ∧
    ∀ x ∈ (g.invalidate u).cycles.entries.pairs,
      x ∈ g.cycles.entries.pairs ∧ x.1 ≠ u ∧ u ∉ x.2.value.files := by
  refine ⟨fun x hx => ?_, fun x hx => ?_⟩ <;>
    simpa [invalidate, Timed.Cache.filter, Table.filter] using hx

end ImportGraph

namespace Survey

variable {o : Oracle} {texts : Set String} {u : Url} {t : String} {first : Moment}
  {before h now look seen asked : List Moment}

theorem Saw.look_suffix {x : Option Snapshot} (hx : Saw u x look seen) : look <:+ seen ∧ look ≠ [] := by
  cases hx with
  | shown => exact ⟨List.suffix_rfl, List.cons_ne_nil _ _⟩
  | onDisk _ hlook hlater => exact ⟨hlook.trans hlater, List.cons_ne_nil _ _⟩

/-- A document is open with a text since some moment: since it was told of, or from the beginning. -/
structure OpenSince (u : Url) (t : String) (first : Moment) (before h : List Moment) : Prop where
  happened : first :: before <:+ h
  told : first.Spoils u ∨ before = []
  shows : ∀ n rest, n :: rest <:+ h → first :: before <:+ n :: rest →
    (n.server.documents.snapshot? u).map (·.text) = some t

namespace OpenSince

variable (hopen : OpenSince u t first before h)
include hopen

/-- What is read of the document meanwhile is the text that it is open with. -/
theorem saw {x : Option Snapshot} (hx : Saw u x look seen) (hseen : seen <:+ h)
    (hlook : first :: before <:+ look) : ∃ y, x = some y ∧ y.text = t := by
  cases hx with
  | @shown m k y hy =>
    have ht := hopen.shows m k hseen hlook
    rw [hy] at ht
    exact ⟨y, rfl, Option.some.inj ht⟩
  | @onDisk m _ _ k _ _ hclosed hmid hlater =>
    have ht := hopen.shows m k ((hmid.trans hlater).trans hseen) hlook
    rw [hclosed] at ht
    cases ht

/-- A look that was not spoiled by the opening came after it. -/
theorem since_look (hlook : look <:+ h) (hne : look ≠ [])
    (hcounts : first.Spoils u → ¬ look <:+ before) : first :: before <:+ look := by
  obtain hlater | hearlier := List.suffix_or_suffix_of_suffix hopen.happened hlook
  · exact hlater
  · obtain rfl | hearlier := List.suffix_cons_iff.mp hearlier
    · exact List.suffix_rfl
    · obtain hspoils | rfl := hopen.told
      · exact absurd hearlier (hcounts hspoils)
      · exact absurd (List.suffix_nil.mp hearlier) hne

/-- By readings that were not spoiled by the opening, the document has the text that it is open with. -/
theorem telling {α : Type} {sight : Snapshot → List Moment → α → Prop} {good : Url → List Moment → Prop}
    (hnow : now <:+ h) (hgood : ∀ look, good u look → first.Spoils u → ¬ look <:+ before) :
    (tidings o texts sight good now).Extends ((tidings o texts sight good now).telling u t) where
  reads v x hx := by
    refine ⟨hx, ?_⟩
    rintro rfl
    have hsaw {look seen : List Moment} {y : Option Snapshot} (hlook : good v look) (hseen : seen <:+ now)
        (hy : Saw v y look seen) : ∃ z, y = some z ∧ z.text = t :=
      hopen.saw hy (hseen.trans hnow) (hopen.since_look ((hy.look_suffix.1.trans hseen).trans hnow)
        hy.look_suffix.2 (hgood look hlook))
    cases hx with
    | missing hlook hseen hy => obtain ⟨z, hz, -⟩ := hsaw hlook hseen hy; cases hz
    | read hlook hseen hy =>
      obtain ⟨z, hz, rfl⟩ := hsaw hlook hseen hy
      cases hz
      exact ⟨_, rfl⟩
  imports _ _ _ hx := hx

end OpenSince

/-- An answer comes of some text of the document. -/
theorem Means.comes {x : Query} {r : Except Failure (Option x.what.Value)}
    (hr : Means o texts asked h x r) (value : x.what.Value) (hvalue : r = .ok (some value)) :
    ∃ source, Comes o texts asked h x.file source x.what (.ok value) := by
  cases hr with
  | missing => cases hvalue
  | unstarted => cases hvalue
  | @given _ source _ r hcomes =>
    cases r with
    | error f => cases hvalue
    | ok v => cases hvalue; exact ⟨source, hcomes⟩
  | @read _ _ r x _ _ _ _ _ hcomes =>
    cases r with
    | error f => cases hvalue
    | ok v => cases hvalue; exact ⟨x.text, hcomes⟩

section Statement

variable (o : Oracle) (texts : Set String) (u : Url) (t : String) (first : Moment)

/-- What was answered comes of a walk that takes this text for this document wherever it comes to it, or
of one that was under way before the document was open with it. -/
def Takes (h asked : List Moment) (root : Url) : (what : What) → what.Value → Prop
  | .imports, _ => True
  | .waterfall _, w => ∃ source ∈ texts, Hash.ofText source = w.hash ∧ ∃ id told, told <:+ h ∧
    let key := (root, w.depth, w.hash)
    ((key, id) ∈ first.server.graph.waterfallFlights.running.pairs ∨
      WaterfallWalk.Yields ((tidings o texts (Tops o)
        (Excused (·.server.graph.waterfallFlights) key id asked) told).telling u t)
        root source w.depth w.symbols)
  | .cycle, v => ∃ source ∈ texts, ∃ id told, told <:+ h ∧
    let key := (root, Hash.ofText source)
    ((key, id) ∈ first.server.graph.cycleFlights.running.pairs ∨
      CycleWalk.Yields ((tidings o texts Bare
        (Excused (·.server.graph.cycleFlights) key id asked) told).telling u t) root source v)

/-- A document is what its URL is, as it is spelled. While it is open with a text, this is what is read
under the URL, and another spelling of the URL reads the file. Edges to a path lead to the one spelling
that is made of the path. Walks take the open text, those that are held as well as those that answer, and
an invalidation leaves no walk that has come to the document. -/
structure GoesByUrl (before h : List Moment) (s : Server) (answers : List Answer) : Prop where
  read (files : FileTree) : (DocumentStore.read? s.documents files u).map (·.text) = some t
  disk (files : FileTree) (v : Url) (p : Path) : u.toFilePath? = some p → v.toFilePath? = some p →
    s.documents.snapshot? v = none →
    (DocumentStore.read? s.documents files v).map (·.text) = files.text? p
  edge (p : Path) (e : ImportEdge) : Url.ofFilePath? p = some u → e.resolved = some p → e.url? = some u
  answers : ∀ x ∈ answers, first :: before <:+ x.asked → ∀ value, x.outcome = .ok (some value) →
    Takes o texts u t first h x.asked x.query.file x.query.what value
  waterfalls : ∀ x ∈ s.graph.waterfalls.entries.pairs, ∃ source ∈ texts,
    Hash.ofText source = x.2.value.hash ∧ WaterfallWalk.Yields ((tidings o texts (Tops o)
      (Holding h x.2.value.files) h).telling u t) x.1.1 source x.1.2 x.2.value.value.symbols
  cycles : ∀ x ∈ s.graph.cycles.entries.pairs, ∃ source ∈ texts,
    Hash.ofText source = x.2.value.hash ∧ CycleWalk.Yields ((tidings o texts Bare
      (Holding h x.2.value.files) h).telling u t) x.1 source x.2.value.value
  dropsWaterfalls : ∀ x ∈ (s.graph.invalidate u).waterfalls.entries.pairs,
    x.1.1 ≠ u ∧ u ∉ x.2.value.files ∧ HoldsWaterfall o texts h x
  dropsCycles : ∀ x ∈ (s.graph.invalidate u).cycles.entries.pairs,
    x.1 ≠ u ∧ u ∉ x.2.value.files ∧ HoldsCycle o texts h x

end Statement

namespace OpenSince

variable (hopen : OpenSince u t first before h) {root : Url}
include hopen

omit hopen in
/-- A look that may count for an answer was not spoiled by the opening, unless its walk was under way. -/
theorem not_spoiled {κ ν : Type} {table : Moment → FlightTable κ ν} {key : κ} {id : FlightId}
    (hasked : first :: before <:+ asked) (hfree : (key, id) ∉ (table first).running.pairs)
    (hlook : Excused table key id asked u look) (hspoils : first.Spoils u) : ¬ look <:+ before :=
  fun hearlier => hfree (hlook first before hasked hearlier hspoils first before hasked List.suffix_rfl)

theorem takes {what : What} {source : String} {value : what.Value}
    (hcomes : Comes o texts asked h root source what (.ok value)) (hasked : first :: before <:+ asked) :
    Takes o texts u t first h asked root what value := by
  cases what with
  | imports => trivial
  | waterfall depth =>
    obtain ⟨m, -, id, told, htold, text, htext, hhash, hw, hdepth, hyields⟩ := hcomes
    dsimp only at hhash hw hdepth hyields
    rw [← hdepth, ← hw] at hyields
    refine ⟨text, htext, hhash.trans hw.symm, id, told, htold, or_iff_not_imp_left.mpr fun hfree => ?_⟩
    exact hyields.mono (hopen.telling htold fun look => not_spoiled hasked hfree)
  | cycle =>
    obtain ⟨id, told, htold, text, htext, hhash, hyields⟩ := hcomes
    dsimp only at hhash hyields
    rw [← hhash] at hyields
    refine ⟨text, htext, id, told, htold, or_iff_not_imp_left.mpr fun hfree => ?_⟩
    exact hyields.mono (hopen.telling htold fun look => not_spoiled hasked hfree)

/-- What is held counts, and was read after the opening. -/
theorem telling_holding {α : Type} {sight : Snapshot → List Moment → α → Prop} (files : List Url) :
    (tidings o texts sight (Holding h files) h).Extends
      ((tidings o texts sight (Holding h files) h).telling u t) :=
  hopen.telling List.suffix_rfl fun _ hlook hspoils hearlier =>
    hlook.2 first before hopen.happened hearlier hspoils

end OpenSince

variable {q : Server.Questions} {s₀ : Server} {m : Machine Survey}

/-- Whatever happens while a document is open, it goes by its URL. -/
theorem Run.goesByUrl (ho : o.Answers q) (hs₀ : s₀.graph.IsNew) (hr : Run q texts s₀ h m)
    (hwithin : ∀ n ∈ h, n.IsWithin texts) (hopen : OpenSince u t first before h) :
    GoesByUrl o texts u t first before h m.state.server m.state.answers := by
  obtain ⟨w, rfl, hsound, htraced⟩ := hr.sound ho hs₀.isIdle (.of_isNew hs₀) hwithin
  obtain ⟨now, older, hnow, hfits⟩ := hsound.current
  have hshown : (m.state.server.documents.snapshot? u).map (·.text) = some t := by
    rw [← hfits.documents]
    exact hopen.shows now older (hnow ▸ List.suffix_rfl) (hnow ▸ hopen.happened)
  obtain ⟨x, hx, rfl⟩ := Option.map_eq_some_iff.mp hshown
  refine ⟨fun files => ?_, fun files v p _ hv hclosed => ?_, fun p e hp he => ?_,
    fun x hx hasked value hvalue => ?_, fun x hx => ?_, fun x hx => ?_, fun x hx => ?_, fun x hx => ?_⟩
  · rw [DocumentStore.read?, hx]
    rfl
  · rw [DocumentStore.read?, hclosed, Option.none_or, DocumentStore.text_fromDisk? hv]
  · rw [ImportEdge.url?, he, Option.bind_some, hp]
  · obtain ⟨-, hmeans⟩ := htraced x hx
    obtain ⟨source, hcomes⟩ := hmeans.comes value hvalue
    exact hopen.takes hcomes hasked
  · obtain ⟨source, hsource, hhash, -, -, hyields⟩ := hsound.heldWaterfalls x hx
    exact ⟨source, hsource, hhash, hyields.mono (hopen.telling_holding _)⟩
  · obtain ⟨source, hsource, hhash, hyields⟩ := hsound.heldCycles x hx
    exact ⟨source, hsource, hhash, hyields.mono (hopen.telling_holding _)⟩
  · obtain ⟨hx, hroot, hfiles⟩ := ImportGraph.mem_invalidate.1 x hx
    exact ⟨hroot, hfiles, hsound.heldWaterfalls x hx⟩
  · obtain ⟨hx, hroot, hfiles⟩ := ImportGraph.mem_invalidate.2 x hx
    exact ⟨hroot, hfiles, hsound.heldCycles x hx⟩

/-- Another URL of the file of a document that is open. -/
theorem read?_respelled : ¬ ∀ (d : DocumentStore) (files : FileTree) (p : Path) (u v : Url) (t : String),
    u.toFilePath? = some p → v.toFilePath? = some p → (d.snapshot? u).map (·.text) = some t →
    (d.read? files v).map (·.text) = some t := fun h =>
  absurd (h ⟨⟨[(fileUrl "/b%2Bc", ⟨"shown", 1⟩)]⟩⟩
    ⟨⟨[(["b+c"], .file [100, 105, 115, 107] 0)]⟩, []⟩ ⟨"/b+c"⟩ (fileUrl "/b%2Bc") (fileUrl "/b+c") "shown"
    (by decide +kernel) (by decide +kernel) (by decide +kernel)) (by decide +kernel)

/-- A document is opened, and then a walk from another one comes to it. -/
def visiting : List Cue :=
  .event (.told (.opened (fileUrl "/b") 1 "new")) :: .ask waterfallQuery ::
    [0, 1, 1, 2, 1, 1, 1, 3, 1, 1, 0].map .move

/-- Whether a document has been open with a text since so many moments ago, when what had been read of
it was spoiled. -/
def opensSince (u : Url) (t : String) (moments : Nat) (h : List Moment) : Bool :=
  (h.drop moments).head?.any fun first => decide (first.Spoils u) &&
    (h.take moments ++ [first]).all fun n => (n.server.documents.snapshot? u).map (·.text) = some t

theorem OpenSince.of_append {later : List Moment} (hspoils : first.Spoils u)
    (hshows : ∀ n ∈ later ++ [first], (n.server.documents.snapshot? u).map (·.text) = some t) :
    OpenSince u t first before (later ++ first :: before) := by
  refine ⟨List.suffix_append _ _, .inl hspoils, fun n rest hn hsince => hshows n ?_⟩
  induction later with
  | nil =>
    obtain heq | hn := List.suffix_cons_iff.mp hn
    · cases heq
      exact List.mem_singleton_self _
    · exact absurd (hsince.trans hn) (Logbook.not_suffix_of_cons_suffix List.suffix_rfl)
  | cons k later ih =>
    obtain heq | hn := List.suffix_cons_iff.mp hn
    · cases heq
      exact List.mem_cons_self
    · exact List.mem_cons_of_mem k (ih (fun x hx => hshows x (List.mem_cons_of_mem k hx)) hn)

theorem exists_of_opensSince {moments : Nat} (htest : opensSince u t moments h = true) :
    ∃ first before, OpenSince u t first before h ∧ first :: before = h.drop moments := by
  obtain ⟨first, hhead, htest⟩ := (Option.any_eq_true _ _).mp htest
  obtain ⟨before, hdrop⟩ := List.head?_eq_some_iff.mp hhead
  simp only [Bool.and_eq_true, List.all_eq_true, decide_eq_true_eq] at htest
  refine ⟨first, before, ?_, hdrop.symm⟩
  rw [← List.take_append_drop moments h, hdrop]
  exact .of_append htest.1 htest.2

/-- The walk has read the text that `b` is open with, under the URL that is made of its path. -/
theorem Run.goesByUrl_visited : ∃ (r : Stage) (first : Moment) (before : List Moment) (x : Answer)
    (w : Waterfall),
    Run (scripted inheriting) Set.univ beginner r.1 r.2 ∧
    OpenSince (fileUrl "/b") "new" first before r.1 ∧ Url.ofFilePath? ⟨"/b"⟩ = some (fileUrl "/b") ∧
    x ∈ r.2.state.answers ∧ first :: before <:+ x.asked ∧ waterfall? x = some w ∧ symbolNames w = ["new"] ∧
    GoesByUrl (.scripted inheriting) Set.univ (fileUrl "/b") "new" first before r.1 r.2.state.server
      r.2.state.answers := by
  have hplays : (visiting.foldlM (Cue.play (scripted inheriting)) (opening beginner)).map (fun r =>
      opensSince (fileUrl "/b") "new" 11 r.1 && r.2.state.answers.any fun x =>
        (waterfall? x).any (fun w => symbolNames w == ["new"]) &&
          decide ((r.1.drop 11).length ≤ x.asked.length)) = some true := by decide +kernel
  obtain ⟨r, hr, htest⟩ := Option.map_eq_some_iff.mp hplays
  obtain ⟨hopens, hany⟩ := Bool.and_eq_true_iff.mp htest
  obtain ⟨x, hx, htest⟩ := List.any_eq_true.mp hany
  obtain ⟨hw, hasked⟩ := Bool.and_eq_true_iff.mp htest
  obtain ⟨w, hw, hnew⟩ := (Option.any_eq_true _ _).mp hw
  obtain ⟨first, before, hopen, hdrop⟩ := exists_of_opensSince hopens
  have hwithin : ∀ n ∈ r.1, n.IsWithin Set.univ := fun _ _ _ => ⟨fun _ _ => trivial, fun _ _ => trivial⟩
  have hrun : Run (scripted inheriting) Set.univ beginner r.1 r.2 :=
    Run.plays .start (fun _ _ _ _ => trivial) hr
  have hnew₀ : beginner.graph.IsNew := ⟨_, _, _, rfl⟩
  obtain ⟨v, hv, -, htraced⟩ :=
    hrun.sound (answers_scripted _) hnew₀.isIdle (.of_isNew hnew₀) hwithin
  refine ⟨r, first, before, x, w, hrun, hopen, by decide +kernel, hx, ?_, hw, eq_of_beq hnew,
    hrun.goesByUrl (answers_scripted _) hnew₀ hwithin hopen⟩
  refine List.suffix_of_suffix_length_le hopen.happened (htraced x hx).1 ?_
  exact hdrop ▸ of_decide_eq_true hasked

end Survey
end LanguageServer
