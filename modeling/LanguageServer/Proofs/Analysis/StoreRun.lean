import LanguageServer.Proofs.Analysis.Sharing
import Mathlib.Tactic.ByContra

/-! The history of an analysis store: edits by others, and flights that begin and land. What a flight
finds is kept just if nothing has made the store forget its document since the flight began. -/
namespace LanguageServer.AnalysisStore

/-- What is told to a store besides requests for analyses. A document is forgotten when it is closed
and when it is invalidated. -/
inductive Edit where
  | track (f : Fingerprint)
  | forget (u : Url)
  | clear

namespace Edit

def apply : Edit → AnalysisStore → AnalysisStore
  | .track f, s => s.track f
  | .forget u, s => s.forget u
  | .clear, s => s.clear

/-- Whether nothing begun before the edit may be kept for a document. -/
def Forgets (u : Url) : Edit → Prop
  | .track _ => False
  | .forget v => v = u
  | .clear => True

end Edit

/-- A store at some time, and the edit that led to it if one did. -/
structure Moment where
  edit : Option Edit
  store : AnalysisStore

/-- No edit has made the store forget a document. -/
def Untouched (u : Url) (h : List Moment) : Prop := ∀ x ∈ h, ∀ e, x.edit = some e → ¬ e.Forgets u

structure Begins (start next : Moment) (id : FlightId) (f : Fingerprint) : Prop where
  edit : next.edit = none
  id : start.store.flights.next = id
  store : next.store = start.store.begun f

/-- A flight began in a history, newest moments first, when its document had an epoch. -/
def Begun (h : List Moment) (id : FlightId) (f : Fingerprint) (started : Epoch) : Prop :=
  ∃ since next start rest, h = since ++ next :: start :: rest ∧ Begins start next id f ∧
    started = start.store.epoch f.url

/-- What a store may become from one moment to the next without an edit. -/
inductive Turn (h : List Moment) (s : AnalysisStore) : AnalysisStore → Prop
  | rest : Turn h s s
  | begin (f : Fingerprint) : Turn h s (s.begun f)
  | land {id : FlightId} {f : Fingerprint} {started : Epoch} (o : Except Failure Analysis) :
    Begun h id f started → Turn h s (s.landed f started id o)

inductive Chronicle : List Moment → Prop
  | start : Chronicle [⟨none, .empty⟩]
  | edit {x : Moment} {h : List Moment} (e : Edit) :
    Chronicle (x :: h) → Chronicle (⟨some e, e.apply x.store⟩ :: x :: h)
  | turn {x : Moment} {h : List Moment} {s : AnalysisStore} :
    Chronicle (x :: h) → Turn (x :: h) x.store s → Chronicle (⟨none, s⟩ :: x :: h)

variable {h since newer : List Moment} {x y : Moment} {u : Url} {f : Fingerprint} {id : FlightId}
  {started : Epoch} {s : AnalysisStore} {a : Analysis}

theorem Begun.of_suffix {older : List Moment} (hb : Begun older id f started) (ho : older <:+ h) :
    Begun h id f started := by
  obtain ⟨newer, rfl⟩ := ho
  obtain ⟨since, next, start, rest, rfl, hbegins⟩ := hb
  exact ⟨newer ++ since, next, start, rest, by simp, hbegins⟩

theorem epoch_landed (s : AnalysisStore) (f : Fingerprint) (started : Epoch) (id : FlightId)
    (o : Except Failure Analysis) (u : Url) : (s.landed f started id o).epoch u = s.epoch u := by
  cases o with
  | error _ => rfl
  | ok a =>
    simp only [landed, offer]
    split <;> rfl

theorem epoch_turn {t : AnalysisStore} (ht : Turn h s t) (u : Url) : t.epoch u = s.epoch u := by
  cases ht with
  | rest => rfl
  | begin f => rfl
  | land o _ => exact epoch_landed _ _ _ _ _ _

/-- How often a document was forgotten, alone or with all others. -/
def age (s : AnalysisStore) (u : Url) : Nat := (s.epoch u).generation + (s.epoch u).document

theorem epoch_edit {e : Edit} (he : ¬ e.Forgets u) (s : AnalysisStore) :
    (e.apply s).epoch u = s.epoch u := by
  cases e with
  | track f => rfl
  | forget v =>
    have hv : (v == u) = false := by simpa [Edit.Forgets] using he
    simp [Edit.apply, forget, epoch, Table.find?_insert, hv]
  | clear => exact absurd trivial he

theorem age_edit {e : Edit} (he : e.Forgets u) (s : AnalysisStore) :
    s.age u < (e.apply s).age u := by
  cases e with
  | track f => exact absurd he id
  | forget v =>
    cases he
    simp [Edit.apply, forget, age, epoch, Table.find?_insert]
  | clear =>
    simp only [Edit.apply, clear, age, epoch]
    omega

theorem untouched_cons : Untouched u (x :: h) ↔
    (∀ e, x.edit = some e → ¬ e.Forgets u) ∧ Untouched u h := List.forall_mem_cons

theorem Chronicle.tail (hc : Chronicle (x :: y :: h)) : Chronicle (y :: h) := by
  cases hc with
  | edit e hc => exact hc
  | turn hc _ => exact hc

theorem Chronicle.of_append (hc : Chronicle (newer ++ x :: h)) : Chronicle (x :: h) := by
  induction newer with
  | nil => exact hc
  | cons y newer ih =>
    cases newer with
    | nil => exact hc.tail
    | cons z newer => exact ih hc.tail

theorem Chronicle.epoch_next (hc : Chronicle (x :: y :: h)) (u : Url) :
    ((∀ e, x.edit = some e → ¬ e.Forgets u) → x.store.epoch u = y.store.epoch u) ∧
      (¬ (∀ e, x.edit = some e → ¬ e.Forgets u) → y.store.age u < x.store.age u) := by
  cases hc with
  | edit e hc =>
    refine ⟨fun h => epoch_edit (h e rfl) _, fun h => age_edit ?_ _⟩
    by_contra he
    exact h fun e' he' => Option.some.inj he' ▸ he
  | turn hc ht => exact ⟨fun _ => epoch_turn ht u, fun h => absurd (by simp) h⟩

/-- A document has the epoch that it had if nothing has made the store forget it, and a later one
otherwise. -/
theorem Chronicle.epoch (hc : Chronicle (x :: since ++ y :: h)) (u : Url) :
    (Untouched u (x :: since) → x.store.epoch u = y.store.epoch u) ∧
      (¬ Untouched u (x :: since) → y.store.age u < x.store.age u) := by
  induction since generalizing x with
  | nil => simpa [Untouched] using hc.epoch_next u
  | cons z since ih =>
    obtain ⟨hsame, hlater⟩ := hc.epoch_next u
    obtain ⟨hsame', hlater'⟩ := ih hc.tail
    rw [untouched_cons]
    refine ⟨fun hu => (hsame hu.1).trans (hsame' hu.2), fun hu => ?_⟩
    by_cases hx : ∀ e, x.edit = some e → ¬ e.Forgets u
    · have hz := hlater' fun hz => hu ⟨hx, hz⟩
      simpa only [age, hsame hx] using hz
    · by_cases hz : Untouched u (z :: since)
      · simpa only [age, hsame' hz] using hlater hx
      · exact Nat.lt_trans (hlater' hz) (hlater hx)

/-- A document has the epoch that it had just if nothing has made the store forget it. -/
theorem Chronicle.epoch_eq_iff (hc : Chronicle (x :: since ++ y :: h)) (u : Url) :
    x.store.epoch u = y.store.epoch u ↔ Untouched u (x :: since) := by
  obtain ⟨hsame, hlater⟩ := hc.epoch u
  refine ⟨fun he => ?_, hsame⟩
  by_contra hu
  have hlt := hlater hu
  simp [age, he] at hlt

/-- What is found for a document may be kept: nothing has made the store forget the document since,
and the editor shows no other text. -/
def MayKeep (f : Fingerprint) (since : List Moment) (s : AnalysisStore) : Prop :=
  Untouched f.url since ∧ ∀ g, s.current? f.url = some g → g = f

theorem accepts_iff (s : AnalysisStore) (f : Fingerprint) (started : Epoch) :
    s.accepts f started = true ↔ s.epoch f.url = started ∧ ∀ g, s.current? f.url = some g → g = f := by
  simp [accepts, Option.all_eq_true]

/-- A flight that began in a history lands: its analysis is kept just if it may be. -/
structure Lands (h : List Moment) (s t : AnalysisStore) (id : FlightId) (f : Fingerprint)
    (since : List Moment) (a : Analysis) : Prop where
  begun : ∃ next start rest, h = since ++ start :: rest ∧ since.getLast? = some next ∧
    Begins start next id f
  flights : t.flights = s.flights.land f id (.ok a)
  kept : MayKeep f since s → t = { s with
    entries := s.entries.insert f.url ⟨f, a⟩
    flights := t.flights }
  dropped : ¬ MayKeep f since s → t = { s with flights := t.flights }

theorem lands_landed (hc : Chronicle (x :: h)) (hb : Begun (x :: h) id f started) (a : Analysis) :
    ∃ since, Lands (x :: h) x.store (x.store.landed f started id (.ok a)) id f since a := by
  obtain ⟨since, next, start, rest, hh, hbegins, rfl⟩ := hb
  have hsplit : x :: h = (since ++ [next]) ++ start :: rest := by simp [hh]
  have haccepts : x.store.accepts f (start.store.epoch f.url) = true ↔
      MayKeep f (since ++ [next]) x.store := by
    obtain ⟨m, more, hmore⟩ := List.exists_cons_of_ne_nil (l := since ++ [next]) (by simp)
    rw [hmore] at hsplit ⊢
    obtain ⟨rfl, rfl⟩ := List.cons.inj hsplit
    rw [accepts_iff, MayKeep, hc.epoch_eq_iff]
  refine ⟨since ++ [next], ⟨next, start, rest, hsplit, by simp, hbegins⟩, flights_landed _ _ _ _ _,
    fun hk => ?_, fun hk => ?_⟩
  · simp [landed, offer, haccepts.mpr hk]
  · have hrefused : x.store.accepts f (start.store.epoch f.url) = false := by
      simpa using fun ha => hk (haccepts.mp ha)
    simp [landed, offer, hrefused]

/-- What happens from one moment to the next without an edit: a flight lands with an analysis, or
the entries stay as they are and no flight has come to an analysis. -/
theorem Turn.lands_or_same {t : AnalysisStore} (hc : Chronicle (x :: h))
    (ht : Turn (x :: h) x.store t) :
    (∃ id f since a, Lands (x :: h) x.store t id f since a) ∨ t.entries = x.store.entries ∧
      ∀ id a, t.flights.outcome? id = some (.ok a) → x.store.flights.outcome? id = some (.ok a) := by
  cases ht with
  | rest => exact .inr ⟨rfl, fun _ _ h => h⟩
  | begin f => exact .inr ⟨rfl, fun _ _ h => h⟩
  | @land id f started o hb =>
    cases o with
    | ok a =>
      obtain ⟨since, hlands⟩ := lands_landed hc hb a
      exact .inl ⟨id, f, since, a, hlands⟩
    | error e =>
      refine .inr ⟨rfl, fun i a hi => ?_⟩
      by_cases hid : id = i
      · simp [landed, FlightTable.outcome?, FlightTable.land, Table.find?_insert, hid] at hi
      · simpa [landed, FlightTable.outcome?, FlightTable.land, Table.find?_insert, hid] using hi

/-- An entry was found by a flight that has landed, and since the flight began nothing has made the
store forget the document. -/
def Stems (h : List Moment) (u : Url) (e : StoredAnalysis) : Prop :=
  ∃ newer t s rest id since, h = newer ++ t :: s :: rest ∧
    Lands (s :: rest) s.store t.store id e.fingerprint since e.analysis ∧
    e.fingerprint.url = u ∧ Untouched u (newer ++ t :: since)

theorem Stems.cons {e : StoredAnalysis} (h' : Stems h u e)
    (hx : ∀ e, x.edit = some e → ¬ e.Forgets u) : Stems (x :: h) u e := by
  obtain ⟨newer, t, s, rest, id, since, rfl, hlands, hurl, hu⟩ := h'
  exact ⟨x :: newer, t, s, rest, id, since, rfl, hlands, hurl, untouched_cons.mpr ⟨hx, hu⟩⟩

theorem Chronicle.stems (hc : Chronicle (x :: h)) {e : StoredAnalysis}
    (he : (u, e) ∈ x.store.entries.pairs) : Stems (x :: h) u e := by
  generalize hg : x :: h = g at hc
  induction hc generalizing x h e with
  | start =>
    cases hg
    simp [empty, Table.empty] at he
  | @edit y older edit hc ih =>
    cases hg
    have hold (he : (u, e) ∈ y.store.entries.pairs) : Stems (y :: older) u e := ih he rfl
    cases edit with
    | track f => exact (hold he).cons (by simp [Edit.Forgets])
    | forget v =>
      obtain ⟨he, hv⟩ : (u, e) ∈ y.store.entries.pairs ∧ (u == v) = false := Table.mem_erase.mp he
      refine (hold he).cons fun e' h' hf => ?_
      cases h'
      cases hf
      simp at hv
    | clear => simp [Edit.apply, clear, Table.empty] at he
  | @turn y older s hc ht ih =>
    cases hg
    have hold (he : (u, e) ∈ y.store.entries.pairs) : Stems (⟨none, s⟩ :: y :: older) u e :=
      (ih he rfl).cons (by simp)
    -- a turn stores something only where a flight lands
    obtain ⟨id, f, since, a, hlands⟩ | ⟨hsame, -⟩ := ht.lands_or_same hc
    · by_cases hk : MayKeep f since y.store
      · have hentries : s.entries = y.store.entries.insert f.url ⟨f, a⟩ := by
          rw [hlands.kept hk]
        obtain hm | hnew := Table.mem_insert (hentries ▸ he)
        · exact hold hm
        · cases hnew
          refine ⟨[], ⟨none, s⟩, y, older, id, since, rfl, hlands, rfl, ?_⟩
          exact untouched_cons.mpr ⟨by simp, hk.1⟩
      · have hentries : s.entries = y.store.entries := by rw [hlands.dropped hk]
        exact hold (hentries ▸ he)
    · exact hold (hsame ▸ he)

/-- A store answers with an analysis when it is asked for a document. -/
def Finds (s : AnalysisStore) (u : Url) (a : Analysis) : Prop :=
  (∃ f, f.url = u ∧ s.get? f = some a) ∨ (∃ e, s.latest? u = some e ∧ e.analysis = a) ∨
    (u, a) ∈ s.settled

theorem Finds.mem {s : AnalysisStore} (hf : s.Finds u a) :
    ∃ e, (u, e) ∈ s.entries.pairs ∧ e.analysis = a := by
  obtain ⟨f, rfl, hf⟩ | ⟨e, he, rfl⟩ | hf := hf
  · simp only [get?, Option.map_eq_some_iff, Option.filter_eq_some_iff] at hf
    obtain ⟨e, ⟨he, -⟩, rfl⟩ := hf
    exact ⟨e, Table.mem_of_find? he, rfl⟩
  · exact ⟨e, Table.mem_of_find? he, rfl⟩
  · simp only [settled, List.mem_mergeSort, List.mem_map, Prod.mk.injEq, Prod.exists] at hf
    obtain ⟨v, e, he, rfl, rfl⟩ := hf
    exact ⟨e, he, rfl⟩

end LanguageServer.AnalysisStore

/-! The histories of an analysis store that tasks share, whatever the order in which the tasks move
and others edit the store in between. -/
namespace LanguageServer.AnalysisStore

variable {σ : Type}

/-- The state changes in nothing that the store is read from. -/
def SameStore (l : Lens σ AnalysisStore) (s s' : σ) : Prop := l.get s' = l.get s

/-- Tasks that change a store only by asking it for analyses. What computes an analysis does not
touch the store. -/
inductive Uses (l : Lens σ AnalysisStore) : {α : Type} → Task σ α → Prop
  | keeps {α : Type} {t : Task σ α} : t.Keeps (SameStore l) → Uses l t
  | call (f : Fingerprint) {compute : Task σ (Except Failure Analysis)} :
    compute.Keeps (SameStore l) → Uses l (getOrCompute l f compute)
  | bind {α β : Type} {t : Task σ α} {g : α → Task σ β} :
    Uses l t → (∀ a, Uses l (g a)) → Uses l (t.bind g)
  | fork {t : Task σ Unit} : Uses l t → Uses l (Task.fork t)

theorem Uses.zoom {τ : Type} {l : Lens σ τ} (hl : l.IsLawful) {p : Lens τ AnalysisStore} {α : Type}
    {t : Task τ α} (h : Uses p t) : Uses (l.andThen p) (t.zoom l) := by
  have hsame (s : σ) (q : τ) (hq : SameStore p (l.get s) q) :
      SameStore (l.andThen p) s (l.set q s) := (congrArg p.get (hl.get_set q s)).trans hq
  induction h with
  | keeps ht => exact .keeps (ht.zoom hsame)
  | call f hcompute =>
    rw [zoom_getOrCompute hl]
    exact .call f (hcompute.zoom hsame)
  | bind _ _ iht ihg =>
    rw [Task.zoom_bind]
    exact .bind iht ihg
  | fork _ ih => exact .fork ih

/-- The runs of tasks that share a store, empty at first, with its history, newest moments first.
Tasks move in any order; new ones join, the store is edited, the rest of the state changes and time
passes between any two moves. -/
inductive StoreRun (l : Lens σ AnalysisStore) : List Moment → Machine σ → Prop
  | start (s : σ) : l.get s = .empty → StoreRun l [⟨none, .empty⟩] (Machine.start s)
  | spawn {h : List Moment} {m : Machine σ} {t : Task σ Unit} :
    StoreRun l h m → Uses l t → StoreRun l h (m.spawn t)
  | edit {h : List Moment} {m : Machine σ} (e : Edit) : StoreRun l h m →
    StoreRun l (⟨some e, e.apply (l.get m.state)⟩ :: h) { m with state := l.modify e.apply m.state }
  | other {h : List Moment} {m : Machine σ} (s : σ) (t : Instant) : StoreRun l h m →
    SameStore l m.state s → StoreRun l h { m with state := s, now := t }
  | move {h : List Moment} {m n : Machine σ} (id : TaskId) : StoreRun l h m →
    m.step? id = some n → StoreRun l (⟨none, l.get n.state⟩ :: h) n

/-- The history of a store, and whether the task that moves has changed the store since its turn
came. -/
structure Tale where
  history : List Moment
  hasTurned : Bool

/-- A history that tells what has led to a store. -/
def Tells (h : List Moment) (s : AnalysisStore) : Prop :=
  Chronicle h ∧ ∃ edit older, h = ⟨edit, s⟩ :: older

/-- On every turn a task may change the store once. -/
def terms (l : Lens σ AnalysisStore) : Contract Tale σ where
  holds w s := Tells w.history (l.get s)
  own w v := v = w ∨ w.hasTurned = false ∧ ∃ s, v = ⟨⟨none, s⟩ :: w.history, true⟩
  others w v := w.history <:+ v.history ∧ v.hasTurned = false
  stalls _ := True
  isTotal := False
  isShared := True

variable {l : Lens σ AnalysisStore}

theorem terms_orderly : (terms l).Orderly where
  shared := trivial
  endless := id
  stalls _ := trivial
  own_refl _ := .inl rfl
  own_trans u v w := by
    rintro (rfl | ⟨hu, s, rfl⟩) hw
    · exact hw
    · obtain rfl | ⟨hv, -⟩ := hw
      · exact .inr ⟨hu, s, rfl⟩
      · simp at hv
  others_trans u v w hv hw := ⟨hv.1.trans hw.1, hw.2⟩
  others_of_own u v w := by
    rintro (rfl | ⟨-, s, rfl⟩) hw
    · exact hw
    · exact ⟨(List.suffix_cons _ _).trans hw.1, hw.2⟩

theorem Tells.turn {h : List Moment} {s t : AnalysisStore} (hs : Tells h s) (ht : Turn h s t) :
    Tells (⟨none, t⟩ :: h) t := by
  obtain ⟨hc, edit, older, rfl⟩ := hs
  exact ⟨hc.turn ht, none, _, rfl⟩

theorem begun_begin {h : List Moment} {s : AnalysisStore} (hs : Tells h s) (f : Fingerprint) :
    Begun (⟨none, s.begun f⟩ :: h) s.flights.next f (s.epoch f.url) := by
  obtain ⟨-, edit, older, rfl⟩ := hs
  exact ⟨[], ⟨none, _⟩, ⟨edit, s⟩, older, rfl, ⟨rfl, rfl, rfl⟩, rfl⟩

section Calls

variable (hl : l.IsLawful) {w : Tale} {s : σ}
include hl

/-- The computation of an analysis keeps to the terms, and so does the end of its flight. -/
theorem flight_meets {f : Fingerprint} {started : Epoch} {id : FlightId}
    {compute : Task σ (Except Failure Analysis)} (hcompute : compute.Keeps (SameStore l))
    (hs : Tells w.history (l.get s)) (hw : w.hasTurned = false) (hb : Begun w.history id f started) :
    (flight l f started id compute).MeetsFrom (terms l) true (fun _ => (terms l).Rests) w s := by
  refine meets_flight hl (hcompute.meetsFrom terms_orderly (fun w s s' hsame hs => ?_) hs
    fun o v s hv hs => ?_)
  · exact (congrArg (Tells w.history) hsame).mpr hs
  · have hv' : v.hasTurned = false ∧ Begun v.history id f started := by
      obtain rfl | hv := hv
      · exact ⟨hw, hb⟩
      · exact ⟨hv.2, hb.of_suffix hv.1⟩
    refine ⟨⟨_, true⟩, .inr ⟨hv'.1, (l.get s).landed f started id o, rfl⟩, ?_⟩
    simpa only [terms, hl.get_set] using hs.turn (.land o hv'.2)

theorem getOrCompute_meets (f : Fingerprint) {compute : Task σ (Except Failure Analysis)}
    (hcompute : compute.Keeps (SameStore l)) (hs : Tells w.history (l.get s))
    (hw : w.hasTurned = false) :
    (getOrCompute l f compute).Meets (terms l)
      (fun _ v s => v.hasTurned = false ∧ Tells v.history (l.get s)) w s := by
  refine meets_getOrCompute hl terms_orderly (fun a _ => ⟨hw, hs⟩) (fun id _ => ?_) fun _ => ?_
  · exact ⟨w, .inl rfl, hs, fun v s hv hs _ _ => ⟨hv.2, hs⟩⟩
  · refine ⟨_, .inr ⟨hw, (l.get s).begun f, rfl⟩, fun v s' hv hs' => ?_, ?_⟩
    · exact flight_meets hl hcompute hs' hv.2 ((begun_begin hs f).of_suffix hv.1)
    · refine ⟨_, .inl rfl, ?_, fun v s hv hs _ _ => ⟨hv.2, hs⟩⟩
      simpa only [terms, hl.get_set] using hs.turn (.begin f)

theorem Uses.meetsFrom {α : Type} {t : Task σ α} (ht : Uses l t) {waited : Bool}
    (hs : Tells w.history (l.get s)) (hw : w.hasTurned = false) :
    t.MeetsFrom (terms l) waited
      (fun _ v s => v.hasTurned = false ∧ Tells v.history (l.get s)) w s := by
  induction ht generalizing w s waited with
  | keeps ht =>
    refine ht.meetsFrom terms_orderly (fun w s s' hsame hs => ?_) hs fun _ v s hv hs => ⟨?_, hs⟩
    · exact (congrArg (Tells w.history) hsame).mpr hs
    · obtain rfl | hv := hv
      · exact hw
      · exact hv.2
  | call f hcompute => exact getOrCompute_meets hl f hcompute hs hw
  | bind _ _ iht ihg =>
    exact Task.MeetsFrom.bind ((iht hs hw).mono fun a v s hv _ => ihg a hv.2 hv.1)
  | fork _ ih =>
    refine ⟨w, .inl rfl, fun _ v s hv hs => ?_, fun _ => ⟨hw, hs⟩⟩
    exact (ih hs hv.2).mono fun _ v s hv => ⟨v, .inl rfl, hv.2⟩

theorem Uses.ready {t : Task σ Unit} (ht : Uses l t) : (terms l).Ready w t :=
  fun _ _ hv hs => (ht.meetsFrom hl hs hv.2).mono fun _ v _ hs => ⟨v, .inl rfl, hs.2⟩

end Calls

variable {h : List Moment} {m : Machine σ}

/-- All that happens in a run is told by its history. -/
theorem StoreRun.binds (hl : l.IsLawful) (hr : StoreRun l h m) :
    (terms l).Binds ⟨h, false⟩ m := by
  induction hr with
  | start s hs =>
    refine ⟨⟨.start, none, [], ?_⟩, fun p hp => absurd hp List.not_mem_nil⟩
    simp [Machine.start, hs]
  | spawn _ ht ih => exact ih.spawn (ht.ready hl)
  | @edit h m e _ ih =>
    refine ih.others terms_orderly ⟨List.suffix_cons _ _, rfl⟩ ?_ m.now
    obtain ⟨hc, edit, older, rfl⟩ := ih.holds
    refine ⟨hc.edit e, some e, ⟨edit, l.get m.state⟩ :: older, ?_⟩
    simp only [Lens.modify, hl.get_set]
  | other s t _ hs ih =>
    exact ih.others terms_orderly ⟨List.suffix_rfl, rfl⟩
      ((congrArg (Tells _) hs).mpr ih.holds) t
  | @move h m n id _ hstep ih =>
    obtain ⟨v, hv, hbinds⟩ := ih.step terms_orderly ⟨List.suffix_rfl, rfl⟩ hstep
    have htold : Tells (⟨none, l.get n.state⟩ :: h) (l.get n.state) ∧
        v.history <:+ ⟨none, l.get n.state⟩ :: h := by
      obtain rfl | ⟨-, s, rfl⟩ := hv
      · exact ⟨hbinds.holds.turn .rest, List.suffix_cons _ _⟩
      · obtain ⟨hc, edit, older, hhead⟩ := hbinds.holds
        cases hhead
        exact ⟨⟨hc, none, h, rfl⟩, List.suffix_rfl⟩
    exact hbinds.others terms_orderly (v := ⟨_, false⟩) ⟨htold.2, rfl⟩ htold.1 n.now

/-- What a history says of a store in which nothing stale is kept. Without an edit, either a flight
lands, and its analysis is kept just if nothing has made the store forget its document since the call
that began it and the editor shows no other text; or no flight has come to an analysis and the entries
stay. Whatever is found was kept so, by a flight that began after its document was last forgotten. -/
structure KeepsFresh (h : List Moment) (s : AnalysisStore) : Prop where
  turns : ∀ newer next now older, h = newer ++ next :: now :: older → next.edit = none →
    (∃ id f since a, Lands (now :: older) now.store next.store id f since a) ∨
      next.store.entries = now.store.entries ∧ ∀ id a,
        next.store.flights.outcome? id = some (.ok a) → now.store.flights.outcome? id = some (.ok a)
  found : ∀ u a, s.Finds u a → ∃ e, e.analysis = a ∧ Stems h u e

theorem Chronicle.turn_of_append {newer older : List Moment} {next now : Moment}
    (hc : Chronicle (newer ++ next :: now :: older)) (hnext : next.edit = none) :
    Chronicle (now :: older) ∧ Turn (now :: older) now.store next.store := by
  cases hc.of_append with
  | edit e hc => cases hnext
  | turn hc ht => exact ⟨hc, ht⟩

/-- In every run nothing stale is kept. -/
theorem StoreRun.keepsFresh (hl : l.IsLawful) (hr : StoreRun l h m) :
    KeepsFresh h (l.get m.state) := by
  obtain ⟨hc, edit, older, rfl⟩ := (hr.binds hl).holds
  refine ⟨fun newer next now older hh hnext => ?_, fun u a hf => ?_⟩
  · obtain ⟨hc, ht⟩ := Chronicle.turn_of_append (hh ▸ hc) hnext
    exact ht.lands_or_same hc
  · obtain ⟨e, he, rfl⟩ := hf.mem
    exact ⟨e, rfl, hc.stems he⟩

/-- A document is forgotten while its analysis is on the way: it is told and not kept. -/
theorem StoreRun.keepsFresh_forgotten :
    ∃ h, ∃ m : Machine AnalysisStore, StoreRun ⟨id, fun s _ => s⟩ h m ∧ KeepsFresh h m.state ∧
      (∃ a, m.state.flights.outcome? 1 = some (.ok a)) ∧
      m.state.get? (.version default 1) = none := by
  let l : Lens AnalysisStore AnalysisStore := ⟨id, fun s _ => s⟩
  have huses : Uses l ((getOrCompute l (.version default 1) (.done (.ok default))).bind fun _ =>
      .done ()) := .bind (.call _ trivial) fun _ => .keeps trivial
  have hmoves : ((((Machine.start .empty).spawn
      ((getOrCompute ⟨id, fun s _ => s⟩ (.version default 1) (.done (.ok default))).bind fun _ =>
        .done ())).step? 0).bind fun m =>
      { m with state := m.state.forget default }.step? 1).map (fun m =>
        (m.state.flights.outcome? 1).any (·.isOk) && (m.state.get? (.version default 1)).isNone) =
      some true := by decide +kernel
  obtain ⟨m, hm, htold⟩ := Option.map_eq_some_iff.mp hmoves
  obtain ⟨n, hn, hm⟩ := Option.bind_eq_some_iff.mp hm
  have hrun := StoreRun.move 1
    ((StoreRun.move 0 ((StoreRun.start _ rfl).spawn huses) hn).edit (.forget default)) hm
  refine ⟨_, m, hrun, StoreRun.keepsFresh ⟨fun _ _ => rfl, fun _ => rfl, fun _ _ _ => rfl⟩ hrun, ?_⟩
  obtain ⟨hok, hnone⟩ := Bool.and_eq_true_iff.mp htold
  refine ⟨?_, Option.isNone_iff_eq_none.mp hnone⟩
  obtain ⟨o, ho, hok⟩ := (Option.any_eq_true _ _).mp hok
  cases o with
  | ok a => exact ⟨a, ho⟩
  | error f => cases hok

end LanguageServer.AnalysisStore
