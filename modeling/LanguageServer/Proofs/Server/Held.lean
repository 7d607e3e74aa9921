import LanguageServer.Proofs.Server.Story

/-! What a survey keeps true: all that an import graph holds or is about to tell comes of readings
that still count, and every answer is traced to such readings. -/
namespace LanguageServer

/-- Reading a cache adds nothing to it. -/
theorem Timed.Cache.mem_settle {κ ν : Type} [BEq κ] {c : Timed.Cache κ ν} {now : Instant} {k : κ}
    {x : κ × Timed.Stamped ν} (hx : x ∈ (c.settle now k).entries.pairs) : x ∈ c.entries.pairs := by
  unfold settle at hx
  split at hx
  · split at hx
    · exact hx
    · exact (Table.mem_erase.mp hx).1
  · exact hx

theorem Timed.Cache.mem_of_find? {κ ν : Type} [BEq κ] [LawfulBEq κ] {c : Timed.Cache κ ν}
    {now : Instant} {k : κ} {v : ν} (h : c.find? now k = some v) :
    ∃ e, (k, e) ∈ c.entries.pairs ∧ e.value = v := by
  simp only [find?, entry?, Option.map_eq_some_iff, Option.filter_eq_some_iff] at h
  obtain ⟨e, ⟨he, -⟩, rfl⟩ := h
  exact ⟨e, Table.mem_of_find? he, rfl⟩

/-- What is stored came of readings that nothing has invalidated. -/
theorem ImportGraph.mem_storeIfUnchanged {κ ν : Type} [BEq κ] [LawfulBEq κ] {g : ImportGraph}
    {c : Timed.Cache κ ν} {now : Instant} {k : κ} {v : ν} {r : ReadSet} {x : κ × Timed.Stamped ν}
    (hx : x ∈ (g.storeIfUnchanged c now k v r).entries.pairs) :
    x ∈ c.entries.pairs ∨ g.isUnchanged r = true ∧ x = (k, ⟨v, now⟩) := by
  unfold storeIfUnchanged at hx
  split at hx
  · next h => exact (Table.mem_insert hx).imp_right fun hx => ⟨h, hx⟩
  · exact .inl hx

namespace ImportGraph

/-- A graph as it is at first, when nothing is known of imports. -/
def IsNew (g : ImportGraph) : Prop :=
  ∃ imports waterfalls cycles, g = .empty imports waterfalls cycles

/-- No flight is in the air. -/
structure IsGrounded (g : ImportGraph) : Prop where
  imports : g.importFlights.running.pairs = []
  waterfalls : g.waterfallFlights.running.pairs = []
  cycles : g.cycleFlights.running.pairs = []

/-- The three tables of flights are idle. -/
structure IsIdle (g : ImportGraph) : Prop where
  imports : g.importFlights.IsIdle
  waterfalls : g.waterfallFlights.IsIdle
  cycles : g.cycleFlights.IsIdle

theorem IsNew.isIdle {g : ImportGraph} (h : g.IsNew) : g.IsIdle := by
  obtain ⟨_, _, _, rfl⟩ := h
  exact ⟨FlightTable.isIdle_empty, FlightTable.isIdle_empty, FlightTable.isIdle_empty⟩

end ImportGraph

namespace Survey

/-- What has happened in a survey, and the books of the three tables of flights. -/
structure Scene where
  history : List Moment
  extractions : Logbook Moment (Url × UInt64)
  waterfalls : Logbook Moment (Url × Nat × UInt64)
  cycles : Logbook Moment (Url × UInt64)

/-- What may become of a scene. -/
structure Scene.Grows (w v : Scene) : Prop where
  history : w.history <:+ v.history
  extractions : w.extractions.Grows w.history v.extractions
  waterfalls : w.waterfalls.Grows w.history v.waterfalls
  cycles : w.cycles.Grows w.history v.cycles

theorem Scene.Grows.refl (w : Scene) : w.Grows w :=
  ⟨List.suffix_rfl, .refl _ _, .refl _ _, .refl _ _⟩

theorem Scene.Grows.trans {u v w : Scene} (h : u.Grows v) (h' : v.Grows w) : u.Grows w where
  history := h.history.trans h'.history
  extractions := h.extractions.trans h'.extractions h.history
  waterfalls := h.waterfalls.trans h'.waterfalls h.history
  cycles := h.cycles.trans h'.cycles h.history

/-- A server is as it was at a moment, as far as others decide. -/
structure Moment.Fits (m : Moment) (s : Server) : Prop where
  configuration : m.server.configuration = s.configuration
  documents : m.server.documents = s.documents
  files : m.server.around.files = s.around.files
  analyses : m.server.analyses = s.analyses
  generation : m.generation = s.graph.generation
  epochs : m.server.graph.epochs = s.graph.epochs

theorem Moment.Fits.refl (m : Moment) : m.Fits m.server := ⟨rfl, rfl, rfl, rfl, rfl, rfl⟩

section Fits

variable {m : Moment} {s s' : Server} (hm : m.Fits s)
include hm

theorem Moment.Fits.abides (h : Server.Abides s s') : m.Fits s' where
  configuration := hm.configuration.trans h.configuration.symm
  documents := hm.documents.trans h.documents.symm
  files := hm.files.trans h.files.symm
  analyses := hm.analyses.trans h.analyses.symm
  generation := h.graph ▸ hm.generation
  epochs := h.graph ▸ hm.epochs

theorem Moment.Fits.regraph {g : ImportGraph} (hgeneration : g.generation = s.graph.generation)
    (hepochs : g.epochs = s.graph.epochs) : m.Fits { s with graph := g } :=
  { hm with
    generation := hm.generation.trans hgeneration.symm
    epochs := hm.epochs.trans hepochs.symm }

end Fits

/-- All texts of documents and files are among these. -/
def Moment.IsWithin (texts : Set String) (m : Moment) : Prop :=
  ∀ u, (∀ x, m.server.documents.snapshot? u = some x → x.text ∈ texts) ∧
    ∀ t, m.server.fileText? u = some t → t ∈ texts

variable (o : Oracle) (texts : Set String)

section Entries

variable (h : List Moment)

/-- A good reading for a result that holds these files: one that still counts. -/
def Holding (files : List Url) (u : Url) (look : List Moment) : Prop :=
  u ∈ files ∧ Unspoiled u look h

def HoldsImports (x : Url × Timed.Stamped ImportSet) : Prop :=
  ∃ told, told <:+ h ∧ Unspoiled x.1 told h ∧
    Extracted o texts x.1 x.2.value.hash (some x.2.value) told

def HoldsWaterfall (x : (Url × Nat) × Timed.Stamped (Derived Waterfall)) : Prop :=
  SeesWaterfall o texts (Holding h x.2.value.files) h (x.1.1, x.1.2, x.2.value.hash)
    (.ok x.2.value.value)

def HoldsCycle (x : Url × Timed.Stamped (Derived CycleVerdict)) : Prop :=
  SeesCycle o texts (Holding h x.2.value.files) h (x.1, x.2.value.hash) (.ok x.2.value.value)

end Entries

/-- All that is held of imports is what there is to tell now. -/
structure UpToDate (s : Server) : Prop where
  imports : ∀ x ∈ s.graph.imports.entries.pairs, HoldsImports o texts [⟨none, s⟩] x
  waterfalls : ∀ x ∈ s.graph.waterfalls.entries.pairs, HoldsWaterfall o texts [⟨none, s⟩] x
  cycles : ∀ x ∈ s.graph.cycles.entries.pairs, HoldsCycle o texts [⟨none, s⟩] x

variable {o texts} in
theorem UpToDate.of_isNew {s : Server} (h : s.graph.IsNew) : UpToDate o texts s := by
  obtain ⟨_, _, _, h⟩ := h
  constructor <;> simp [h, ImportGraph.empty, Timed.Cache.empty, Table.empty]

/-- What is true of a server between two moves. -/
structure Sound (w : Scene) (s : Server) : Prop where
  current : ∃ now older, w.history = now :: older ∧ now.Fits s
  story : Story w.history
  within : ∀ m ∈ w.history, m.IsWithin texts
  extractions : w.extractions.Fits (·.server.graph.importFlights)
    (fun x told => Learns o texts x.key.1 x.key.2 told) w.history s.graph.importFlights
  waterfalls : w.waterfalls.Fits (·.server.graph.waterfallFlights)
    (fun x told => SeesWaterfall o texts (Unspoiled · · x.start) told x.key)
    w.history s.graph.waterfallFlights
  cycles : w.cycles.Fits (·.server.graph.cycleFlights)
    (fun x told => SeesCycle o texts (Unspoiled · · x.start) told x.key)
    w.history s.graph.cycleFlights
  heldImports : ∀ x ∈ s.graph.imports.entries.pairs, HoldsImports o texts w.history x
  heldWaterfalls : ∀ x ∈ s.graph.waterfalls.entries.pairs, HoldsWaterfall o texts w.history x
  heldCycles : ∀ x ∈ s.graph.cycles.entries.pairs, HoldsCycle o texts w.history x

section Tidings

variable {o texts} {h h' asked : List Moment} {u : Url} {t : String}

theorem tidings_extends {α : Type} {sight : Snapshot → List Moment → α → Prop}
    {good good' : Url → List Moment → Prop} (hgood : ∀ v look, good v look → good' v look)
    (hh : h <:+ h') :
    (tidings o texts sight good h).Extends (tidings o texts sight good' h') where
  reads v x hx := by
    cases hx with
    | missing hlook hseen hsaw => exact .missing (hgood _ _ hlook) (hseen.trans hh) hsaw
    | read hlook hseen hsaw hsight => exact .read (hgood _ _ hlook) (hseen.trans hh) hsaw hsight
  imports v t x hx := by
    obtain ⟨told, htold, hnow, hx⟩ := hx
    exact ⟨told, hgood _ _ htold, hnow.trans hh, hx⟩

variable {good good' : Url → List Moment → Prop}

theorem SeesWaterfall.mono {key : Url × Nat × UInt64} {r : Except Failure Waterfall}
    (hr : SeesWaterfall o texts good h key r) (hgood : ∀ v look, good v look → good' v look)
    (hh : h <:+ h') : SeesWaterfall o texts good' h' key r := by
  cases r with
  | ok w =>
    obtain ⟨t, ht, hhash, heq, hdepth, hyields⟩ := hr
    exact ⟨t, ht, hhash, heq, hdepth, hyields.mono (tidings_extends hgood hh)⟩
  | error f =>
    refine Or.imp_right (fun hfails => ?_) hr
    obtain ⟨t, ht, hhash, hfails⟩ := hfails
    exact ⟨t, ht, hhash, hfails.mono (tidings_extends hgood hh)⟩

theorem SeesCycle.mono {key : Url × UInt64} {r : Except Failure CycleVerdict}
    (hr : SeesCycle o texts good h key r) (hgood : ∀ v look, good v look → good' v look)
    (hh : h <:+ h') : SeesCycle o texts good' h' key r := by
  cases r with
  | ok v =>
    obtain ⟨t, ht, hhash, hyields⟩ := hr
    exact ⟨t, ht, hhash, hyields.mono (tidings_extends hgood hh)⟩
  | error f =>
    refine Or.imp_right (fun hfails => ?_) hr
    obtain ⟨t, ht, hhash, hfails⟩ := hfails
    exact ⟨t, ht, hhash, (tidings_extends hgood hh).imports _ _ _ hfails⟩

end Tidings

section Answers

/-- A look at a file that may count for an answer to a call: whenever the file was spoiled between
the look and the call, a flight of this key was in the air, then and ever since until the call. -/
def Excused {κ ν : Type} (table : Moment → FlightTable κ ν) (key : κ) (id : FlightId)
    (asked : List Moment) (u : Url) (look : List Moment) : Prop :=
  ∀ m older, m :: older <:+ asked → look <:+ older → m.Spoils u →
    ∀ n rest, n :: rest <:+ asked → m :: older <:+ n :: rest → (key, id) ∈ (table n).running.pairs

/-- Whence the answer about a text comes. Imports were told after the call, or what was told counted
when the call was made. A walk comes to what its readings yield; what was spoiled before the call was
spoiled while the walk was under way. -/
def Comes (asked h : List Moment) (u : Url) (t : String) :
    (what : What) → Except Failure what.Value → Prop
  | .imports, r => ∃ told, told <:+ h ∧ Unspoiled u told asked ∧
    Learns o texts u (Hash.ofText t) told r
  | .waterfall depth, r => ∃ m ∈ h, ∃ id told, told <:+ h ∧
    let key := (u, depth.getD m.server.configuration.waterfallDepth, Hash.ofText t)
    SeesWaterfall o texts (Excused (·.server.graph.waterfallFlights) key id asked) told key r
  | .cycle, r => ∃ id told, told <:+ h ∧
    SeesCycle o texts (Excused (·.server.graph.cycleFlights) (u, Hash.ofText t) id asked) told
      (u, Hash.ofText t) r

/-- Whence the answer to a question comes. The text of a document was read after the call; where the
process could not be started there is no answer. -/
inductive Means (asked h : List Moment) : (x : Query) → Except Failure (Option x.what.Value) → Prop
  | given {u : Url} {t : String} {what : What} {r : Except Failure what.Value} :
    Comes o texts asked h u t what r → Means asked h ⟨u, some t, what⟩ (r.map some)
  | missing {u : Url} {what : What} {look seen : List Moment} : asked <:+ look → seen <:+ h →
    Saw u none look seen → Means asked h ⟨u, none, what⟩ (.ok none)
  | unstarted {u : Url} {what : What} {f : Failure} : Means asked h ⟨u, none, what⟩ (.error f)
  | read {u : Url} {what : What} {r : Except Failure what.Value} {x : Snapshot}
    {look seen : List Moment} : asked <:+ look → seen <:+ h → Saw u (some x) look seen →
    Comes o texts asked h u x.text what r → Means asked h ⟨u, none, what⟩ (r.map some)

/-- An answer was asked for in this history and comes of what happened in it. -/
def Answer.IsTraced (h : List Moment) (x : Answer) : Prop :=
  x.asked <:+ h ∧ Means o texts x.asked h x.query x.outcome

variable {o texts} {h h' asked : List Moment}

theorem Comes.of_suffix {u : Url} {t : String} {what : What} {r : Except Failure what.Value}
    (hr : Comes o texts asked h u t what r) (hh : h <:+ h') : Comes o texts asked h' u t what r := by
  cases what with
  | imports =>
    obtain ⟨told, htold, hr⟩ := hr
    exact ⟨told, htold.trans hh, hr⟩
  | waterfall depth =>
    obtain ⟨m, hm, id, told, htold, hr⟩ := hr
    exact ⟨m, hh.subset hm, id, told, htold.trans hh, hr⟩
  | cycle =>
    obtain ⟨id, told, htold, hr⟩ := hr
    exact ⟨id, told, htold.trans hh, hr⟩

theorem Means.of_suffix {x : Query} {r : Except Failure (Option x.what.Value)}
    (hr : Means o texts asked h x r) (hh : h <:+ h') : Means o texts asked h' x r := by
  cases hr with
  | given hr => exact .given (hr.of_suffix hh)
  | missing hlook hseen hsaw => exact .missing hlook (hseen.trans hh) hsaw
  | unstarted => exact .unstarted
  | read hlook hseen hsaw hr => exact .read hlook (hseen.trans hh) hsaw (hr.of_suffix hh)

theorem Answer.IsTraced.of_suffix {x : Answer} (hx : x.IsTraced o texts h) (hh : h <:+ h') :
    x.IsTraced o texts h' := ⟨hx.1.trans hh, hx.2.of_suffix hh⟩

end Answers

/-- Tasks enter what they begin and land, and everything else is added to the history. -/
def terms : Contract Scene Survey where
  holds w s := Sound o texts w s.server ∧ ∀ x ∈ s.answers, x.IsTraced o texts w.history
  own w v := v.history = w.history ∧ w.Grows v
  others := Scene.Grows
  stalls _ := True
  isTotal := False
  isShared := True

/-- The terms as they bind a task on the server. -/
abbrev serverTerms : Contract (Scene × List Answer) Server :=
  (terms o texts).within complement.whole

variable {o texts}

theorem terms_orderly : (terms o texts).Orderly where
  shared := trivial
  endless := id
  stalls _ := trivial
  own_refl w := ⟨rfl, .refl w⟩
  own_trans _ _ _ hv hw := ⟨hw.1.trans hv.1, hv.2.trans hw.2⟩
  others_trans _ _ _ hv hw := hv.trans hw
  others_of_own _ _ _ hv hw := hv.2.trans hw

theorem serverTerms_orderly : (serverTerms o texts).Orderly := terms_orderly.within _

variable {w : Scene} {s s' : Server}

theorem Sound.abides (hs : Sound o texts w s) (h : Server.Abides s s') : Sound o texts w s' where
  current := by
    obtain ⟨now, older, hh, hnow⟩ := hs.current
    exact ⟨now, older, hh, hnow.abides h⟩
  story := hs.story
  within := hs.within
  extractions := h.graph.symm ▸ hs.extractions
  waterfalls := h.graph.symm ▸ hs.waterfalls
  cycles := h.graph.symm ▸ hs.cycles
  heldImports := h.graph.symm ▸ hs.heldImports
  heldWaterfalls := h.graph.symm ▸ hs.heldWaterfalls
  heldCycles := h.graph.symm ▸ hs.heldCycles

theorem holds_of_abides (w : Scene × List Answer) (s s' : Server) (h : Server.Abides s s')
    (hs : (serverTerms o texts).holds w s) : (serverTerms o texts).holds w s' :=
  ⟨Sound.abides hs.1 h, hs.2⟩

/-- A graph that holds what was held, and what is sound besides. -/
theorem Sound.regraph (hs : Sound o texts w s) {g : ImportGraph}
    (hgeneration : g.generation = s.graph.generation) (hepochs : g.epochs = s.graph.epochs)
    (hflights : g.importFlights = s.graph.importFlights ∧
      g.waterfallFlights = s.graph.waterfallFlights ∧ g.cycleFlights = s.graph.cycleFlights)
    (himports : ∀ x ∈ g.imports.entries.pairs,
      x ∈ s.graph.imports.entries.pairs ∨ HoldsImports o texts w.history x)
    (hwaterfalls : ∀ x ∈ g.waterfalls.entries.pairs,
      x ∈ s.graph.waterfalls.entries.pairs ∨ HoldsWaterfall o texts w.history x)
    (hcycles : ∀ x ∈ g.cycles.entries.pairs,
      x ∈ s.graph.cycles.entries.pairs ∨ HoldsCycle o texts w.history x) :
    Sound o texts w { s with graph := g } where
  current := by
    obtain ⟨now, older, hh, hnow⟩ := hs.current
    exact ⟨now, older, hh, hnow.regraph hgeneration hepochs⟩
  story := hs.story
  within := hs.within
  extractions := hflights.1.symm ▸ hs.extractions
  waterfalls := hflights.2.1.symm ▸ hs.waterfalls
  cycles := hflights.2.2.symm ▸ hs.cycles
  heldImports x hx := (himports x hx).elim (hs.heldImports x) id
  heldWaterfalls x hx := (hwaterfalls x hx).elim (hs.heldWaterfalls x) id
  heldCycles x hx := (hcycles x hx).elim (hs.heldCycles x) id

section Given

variable {u : Url} {hash : UInt64} {now : Instant}

/-- The imports that are held for a text were told and count. -/
theorem Sound.extracted_importsOf (hs : Sound o texts w s) {set : ImportSet}
    (h : (s.graph.importsOf now u hash).1 = some set) : ∃ told, told <:+ w.history ∧
      Unspoiled u told w.history ∧ Extracted o texts u hash (some set) told := by
  simp only [ImportGraph.importsOf, Timed.Cache.get, Option.filter_eq_some_iff,
    decide_eq_true_eq] at h
  obtain ⟨hfind, rfl⟩ := h
  obtain ⟨e, he, rfl⟩ := Timed.Cache.mem_of_find? hfind
  exact hs.heldImports _ he

/-- A waterfall that is held for a text comes of readings that count. -/
theorem Sound.sees_waterfallOf (hs : Sound o texts w s) {depth : Nat} {found : Waterfall}
    (h : (s.graph.waterfallOf now u depth hash).1 = some found) :
    SeesWaterfall o texts (Unspoiled · · w.history) w.history (u, depth, hash) (.ok found) := by
  simp only [ImportGraph.waterfallOf, Timed.Cache.get, Option.map_eq_some_iff,
    Option.filter_eq_some_iff, decide_eq_true_eq] at h
  obtain ⟨d, ⟨hfind, hhash⟩, rfl⟩ := h
  obtain ⟨e, he, rfl⟩ := Timed.Cache.mem_of_find? hfind
  exact hhash ▸ (hs.heldWaterfalls _ he).mono (fun _ _ hlook => hlook.2) List.suffix_rfl

/-- A verdict that is held for a text comes of readings that count. -/
theorem Sound.sees_cycleOf (hs : Sound o texts w s) {verdict : CycleVerdict}
    (h : (s.graph.cycleOf now u hash).1 = some verdict) :
    SeesCycle o texts (Unspoiled · · w.history) w.history (u, hash) (.ok verdict) := by
  simp only [ImportGraph.cycleOf, Timed.Cache.get, Option.map_eq_some_iff,
    Option.filter_eq_some_iff, decide_eq_true_eq] at h
  obtain ⟨d, ⟨hfind, hhash⟩, rfl⟩ := h
  obtain ⟨e, he, rfl⟩ := Timed.Cache.mem_of_find? hfind
  exact hhash ▸ (hs.heldCycles _ he).mono (fun _ _ hlook => hlook.2) List.suffix_rfl

end Given

variable (o texts) in
/-- The extractions of imports, with their book. -/
def extractions : Hangar (Scene × List Answer) Server Moment (Url × UInt64) ImportSet where
  flights := Server.importFlights
  book := ⟨(·.1.extractions), fun l w => ({ w.1 with extractions := l }, w.2)⟩
  history w := w.1.history
  table m := m.server.graph.importFlights
  means x told := Learns o texts x.key.1 x.key.2 told

variable (o texts) in
def waterfalls : Hangar (Scene × List Answer) Server Moment (Url × Nat × UInt64) Waterfall where
  flights := Server.waterfallFlights
  book := ⟨(·.1.waterfalls), fun l w => ({ w.1 with waterfalls := l }, w.2)⟩
  history w := w.1.history
  table m := m.server.graph.waterfallFlights
  means x told := SeesWaterfall o texts (Unspoiled · · x.start) told x.key

variable (o texts) in
def cycles : Hangar (Scene × List Answer) Server Moment (Url × UInt64) CycleVerdict where
  flights := Server.cycleFlights
  book := ⟨(·.1.cycles), fun l w => ({ w.1 with cycles := l }, w.2)⟩
  history w := w.1.history
  table m := m.server.graph.cycleFlights
  means x told := SeesCycle o texts (Unspoiled · · x.start) told x.key

theorem extractions_serves : (extractions o texts).Serves (serverTerms o texts) where
  lawful := ⟨fun _ _ => rfl, fun _ => rfl, fun _ _ _ => rfl⟩
  book_set _ _ := rfl
  history_set _ _ := rfl
  fits _ _ hs := hs.1.extractions
  put _ _ _ _ hs hl := ⟨{ hs.1 with
    current := hs.1.current.imp fun _ h => h.imp fun _ h => ⟨h.1, { h.2 with }⟩
    extractions := hl }, hs.2⟩
  own _ _ hl := ⟨⟨rfl, List.suffix_rfl, hl, .refl _ _, .refl _ _⟩, rfl⟩
  others _ _ hv := ⟨hv.history, hv.extractions⟩

theorem waterfalls_serves : (waterfalls o texts).Serves (serverTerms o texts) where
  lawful := ⟨fun _ _ => rfl, fun _ => rfl, fun _ _ _ => rfl⟩
  book_set _ _ := rfl
  history_set _ _ := rfl
  fits _ _ hs := hs.1.waterfalls
  put _ _ _ _ hs hl := ⟨{ hs.1 with
    current := hs.1.current.imp fun _ h => h.imp fun _ h => ⟨h.1, { h.2 with }⟩
    waterfalls := hl }, hs.2⟩
  own _ _ hl := ⟨⟨rfl, List.suffix_rfl, .refl _ _, hl, .refl _ _⟩, rfl⟩
  others _ _ hv := ⟨hv.history, hv.waterfalls⟩

theorem cycles_serves : (cycles o texts).Serves (serverTerms o texts) where
  lawful := ⟨fun _ _ => rfl, fun _ => rfl, fun _ _ _ => rfl⟩
  book_set _ _ := rfl
  history_set _ _ := rfl
  fits _ _ hs := hs.1.cycles
  put _ _ _ _ hs hl := ⟨{ hs.1 with
    current := hs.1.current.imp fun _ h => h.imp fun _ h => ⟨h.1, { h.2 with }⟩
    cycles := hl }, hs.2⟩
  own _ _ hl := ⟨⟨rfl, List.suffix_rfl, .refl _ _, .refl _ _, hl⟩, rfl⟩
  others _ _ hv := ⟨hv.history, hv.cycles⟩

end Survey
end LanguageServer

/-! Surveys that are played cue by cue, and tests of what is assumed of their histories. -/
namespace LanguageServer.Survey

variable {texts : Set String} {s₀ : Server} {q : Server.Questions} {u : Url} {t : String} {k : List Moment}

/-- What is done to a survey. -/
inductive Cue where
  | ask (x : Query)
  | event (e : Event)
  | move (id : TaskId)

/-- A survey with its history. -/
abbrev Stage := List Moment × Machine Survey

def Cue.play (q : Server.Questions) (r : Stage) : Cue → Option Stage
  | .ask x => some (r.1, r.2.spawn (call q r.1 x))
  | .event e => some (⟨some e, e.apply r.2.state.server⟩ :: r.1,
      { r.2 with state := serverLens.modify e.apply r.2.state })
  | .move id => (r.2.step? id).map fun n => (⟨none, n.state.server⟩ :: r.1, n)

theorem Run.play {r r' : Stage} {cue : Cue} (hr : Run q texts s₀ r.1 r.2)
    (hcue : ∀ x t, cue = .ask x → x.text = some t → t ∈ texts) (h : cue.play q r = some r') :
    Run q texts s₀ r'.1 r'.2 := by
  cases cue with
  | ask x =>
    cases h
    exact hr.call x fun t => hcue x t rfl
  | event e =>
    cases h
    exact hr.event e
  | move id =>
    obtain ⟨n, hn, rfl⟩ := Option.map_eq_some_iff.mp h
    exact hr.move id hn

theorem Run.plays {r r' : Stage} {cues : List Cue} (hr : Run q texts s₀ r.1 r.2)
    (hcues : ∀ x t, .ask x ∈ cues → x.text = some t → t ∈ texts)
    (h : cues.foldlM (Cue.play q) r = some r') : Run q texts s₀ r'.1 r'.2 := by
  induction cues generalizing r with
  | nil =>
    cases h
    exact hr
  | cons cue cues ih =>
    obtain ⟨r₁, hr₁, h⟩ := Option.bind_eq_some_iff.mp h
    refine ih (hr.play (fun x t hx => hcues x t (hx ▸ List.mem_cons_self)) hr₁) (fun x t hx => ?_) h
    exact hcues x t (List.mem_cons_of_mem _ hx)

/-- Questions that are answered at once; a text has one symbol, which has its name. -/
def scripted (imports : String → List ImportEdge) : Server.Questions where
  imports t _ := .done (.ok (imports t))
  symbols t _ := .done (.ok [.leaf ⟨t, default, default⟩ default])

def Oracle.scripted (imports : String → List ImportEdge) : Oracle where
  imports t _ r := r = .ok (imports t)
  symbols t _ r := r = .ok [.leaf ⟨t, default, default⟩ default]

theorem answers_scripted (imports : String → List ImportEdge) :
    (Oracle.scripted imports).Answers (scripted imports) where
  keepsImports _ _ := trivial
  keepsSymbols _ _ := trivial
  imports _ _ := rfl
  symbols _ _ := rfl

def fileUrl (path : String) : Url := ⟨"file", some "", path, none, none⟩

/-- A server at first, but that its process runs. -/
def beginner : Server :=
  { Server.new ⟨.empty, [], .scripted none, [], 0, none⟩ {} with
    client := { Analyzer.Client.new with phase := .running } }

/-- A survey as it begins. -/
def opening (s : Server) : Stage := ([⟨none, s⟩], .start ⟨s, []⟩)

/-- A file that has a text stands in the tree with bytes of that text. -/
theorem exists_file_of_text? {files : FileTree} {path : Path} (h : files.text? path = some t) :
    ∃ e ∈ files.entries.pairs, ∃ bytes modified, e.2 = .file bytes modified ∧
      Text.Utf8.text? bytes = some t := by
  simp only [FileTree.text?] at h
  split at h
  · next bytes modified hfile =>
    obtain ⟨place, -, hentry⟩ := Option.bind_eq_some_iff.mp hfile
    simp only [FileTree.entry?] at hentry
    split at hentry
    · cases hentry
    · exact ⟨_, Table.mem_of_find? hentry, bytes, modified, rfl, h⟩
  · cases h

/-- Whether all texts of documents and files are among these. -/
def Moment.knows (known : List String) (n : Moment) : Bool :=
  n.server.documents.documents.pairs.all (fun d => known.contains d.2.text) &&
    n.server.around.files.entries.pairs.all fun e =>
      match e.2 with
      | .file bytes _ => (Text.Utf8.text? bytes).all known.contains
      | _ => true

theorem Moment.isWithin_of_knows {known : List String} {n : Moment} (h : n.knows known = true) :
    n.IsWithin {t | t ∈ known} := fun u => by
  simp only [Moment.knows, Bool.and_eq_true, List.all_eq_true, List.contains_iff_mem] at h
  refine ⟨fun x hx => ?_, fun t ht => ?_⟩
  · obtain ⟨doc, hdoc, rfl⟩ := Option.map_eq_some_iff.mp hx
    exact h.1 _ (Table.mem_of_find? hdoc)
  · obtain ⟨path, -, ht⟩ := Option.bind_eq_some_iff.mp ht
    obtain ⟨e, he, bytes, modified, hfile, htext⟩ := exists_file_of_text? ht
    simpa [hfile, htext] using h.2 e he

theorem settled_of_isChain
    (h : k.IsChain fun a b => (a.shows u).2 = (b.shows u).2 ∨ a.Spoils u) : Settled u k :=
  fun a b older hab hchanged => by
    have hnext := (List.isChain_cons_cons.mp (h.suffix hab)).1
    exact ⟨a, b :: older, hab, List.suffix_rfl, hnext.resolve_left hchanged⟩

end LanguageServer.Survey
