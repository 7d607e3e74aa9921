import LanguageServer.Proofs.Analysis.Strides

/-! The annals of an analysis store: what was done to it, step by step. What is held for a document
is what was kept last for it. A flight takes the place of one that began later just where the store
cannot tell that the text of the later one is newer. -/
namespace LanguageServer

theorem FlightTable.Turn.next_le {κ ν : Type} [BEq κ] {t t' : FlightTable κ ν} (h : t.Turn t') :
    t.next ≤ t'.next := by
  cases h with
  | begin key hkey => exact Nat.le_succ _
  | _ => exact Nat.le_refl _

namespace AnalysisStore

/-- What is done to a store that bears on what it holds. -/
inductive Deed where
  | edit (e : Edit)
  | begin (f : Fingerprint) (id : FlightId)
  | keep (f : Fingerprint) (id : FlightId) (a : Analysis)

namespace Deed

def Forgets (u : Url) : Deed → Prop
  | .edit e => e.Forgets u
  | _ => False

/-- Whether the deed decides anew what is held for a document. -/
def Settles (u : Url) : Deed → Prop
  | .edit e => e.Forgets u
  | .begin _ _ => False
  | .keep f _ _ => f.url = u

end Deed

/-- A store at some time, and what was done that led to it. -/
structure Note where
  deed : Option Deed
  store : AnalysisStore

/-- Nothing has made the store forget a document. -/
def Spared (u : Url) (g : List Note) : Prop := ∀ x ∈ g, ∀ d, x.deed = some d → ¬ d.Forgets u

/-- A flight has begun for a call that had seen its document at an epoch. -/
def HasBegun (g : List Note) (f : Fingerprint) (id : FlightId) (started : Epoch) : Prop :=
  ∃ newer x older, g = newer ++ x :: older ∧ x.deed = some (.begin f id) ∧
    ∃ y ∈ older, y.store.epoch f.url = started

/-- What may be done to a store after all that was done before, newest first. An analysis is kept
while its flight runs, where nothing is held for its text, and if the store accepts it. -/
inductive Does (g : List Note) (s : AnalysisStore) : Option Deed → AnalysisStore → Prop
  | rest : Does g s none s
  | edit (e : Edit) : Does g s (some (.edit e)) (e.apply s)
  | begin (f : Fingerprint) : s.flights.running.find? f = none → s.get? f = none →
    Does g s (some (.begin f s.flights.next)) (s.begun f)
  | keep (f : Fingerprint) (id : FlightId) (started : Epoch) (a : Analysis) :
    s.flights.running.find? f = some id → s.get? f = none → HasBegun g f id started →
    s.accepts f started = true → Does g s (some (.keep f id a)) (s.offer f started a)
  | land (f : Fingerprint) (id : FlightId) (o : Except Failure Analysis) :
    s.flights.running.find? f = some id → (∀ e, o = .error e → s.get? f = none) →
    Does g s none (s.land f id o)

/-- All that was done to a store that was empty at first, newest first. -/
inductive Annals : List Note → Prop
  | start : Annals [⟨none, .empty⟩]
  | step {x : Note} {g : List Note} {d : Option Deed} {s : AnalysisStore} :
    Annals (x :: g) → Does (x :: g) x.store d s → Annals (⟨d, s⟩ :: x :: g)

variable {g newer older mid : List Note} {x y : Note} {s t : AnalysisStore} {d : Option Deed}
  {u : Url} {f f' : Fingerprint} {id id' : FlightId} {a a' : Analysis} {started : Epoch}

theorem HasBegun.of_suffix (hb : HasBegun older f id started) (ho : older <:+ g) :
    HasBegun g f id started := by
  obtain ⟨newer, rfl⟩ := ho
  obtain ⟨since, x, rest, rfl, hx, hy⟩ := hb
  exact ⟨newer ++ since, x, rest, by simp, hx, hy⟩

theorem offer_of_accepts (h : s.accepts f started = true) (a : Analysis) :
    s.offer f started a = { s with entries := s.entries.insert f.url ⟨f, a⟩ } := by
  simp [offer, h]

namespace Does

theorem stride (h : Does g s d t) : Stride s t := by
  cases h with
  | rest => exact .rest
  | edit e => exact .edit e
  | begin f hrun hf => exact .begin f hrun hf
  | keep f id started a hrun hf => exact .keep f id started a hrun hf
  | land f id o hrun hfail =>
    cases o with
    | ok a => exact .land f id a hrun
    | error e => exact .fail f id e hrun (hfail e rfl)

theorem flights (h : Does g s d t) : s.flights.Turn t.flights := by
  cases h with
  | rest => exact .rest
  | edit e => exact flights_edit e s ▸ .rest
  | begin f hrun => exact .begin f hrun
  | keep f id started a => exact flights_offer s f started a ▸ .rest
  | land f id o hrun => exact .land f id o hrun

/-- A document has the epoch that it had, unless the store is made to forget it. -/
theorem epoch (h : Does g s d t) (hd : ∀ e, d = some e → ¬ e.Forgets u) : t.epoch u = s.epoch u := by
  cases h with
  | edit e => exact epoch_edit (hd _ rfl) s
  | keep f id started a _ _ _ haccepts => rw [offer_of_accepts haccepts]; rfl
  | _ => rfl

theorem age_lt {e : Deed} (h : Does g s (some e) t) (he : e.Forgets u) : s.age u < t.age u := by
  cases h with
  | edit e => exact age_edit he s
  | begin f => exact he.elim
  | keep f id started a => exact he.elim

/-- The editor shows what it showed, unless the store is told otherwise. -/
theorem current? (h : Does g s d t) (hd : ∀ e, d = some e → ¬ e.Forgets u) :
    t.current? u = s.current? u ∨
      ∃ f, d = some (.edit (.track f)) ∧ t.current? u = some f := by
  cases h with
  | edit e =>
    cases e with
    | track f =>
      simp only [Edit.apply, track, AnalysisStore.current?, Table.find?_insert]
      split
      · exact .inr ⟨f, rfl, rfl⟩
      · exact .inl rfl
    | forget v =>
      have hv : (v == u) = false := by simpa [Deed.Forgets, Edit.Forgets] using hd _ rfl
      simp [Edit.apply, forget, AnalysisStore.current?, Table.find?_erase, hv]
    | clear => exact absurd trivial (hd _ rfl)
  | keep f id started a _ _ _ haccepts => rw [offer_of_accepts haccepts]; exact .inl rfl
  | _ => exact .inl rfl

/-- What is held for a document stays, unless the deed decides it anew. -/
theorem latest?_of_not_settles (h : Does g s d t) (hd : ∀ e, d = some e → ¬ e.Settles u) :
    t.latest? u = s.latest? u := by
  cases h with
  | edit e =>
    cases e with
    | track f => rfl
    | forget v =>
      have hv : (v == u) = false := by simpa [Deed.Settles, Edit.Forgets] using hd _ rfl
      simp [Edit.apply, forget, latest?, Table.find?_erase, hv]
    | clear => exact absurd trivial (hd _ rfl)
  | keep f id started a _ _ _ haccepts =>
    have hu : (f.url == u) = false := by simpa [Deed.Settles] using hd _ rfl
    simp [offer_of_accepts haccepts, latest?, Table.find?_insert, hu]
  | _ => rfl

/-- A deed that decides what is held for a document either keeps an analysis of it or leaves
nothing. -/
theorem latest?_of_settles {e : Deed} (h : Does g s (some e) t) (he : e.Settles u) :
    (∃ f id a, e = .keep f id a ∧ f.url = u ∧ t.latest? u = some ⟨f, a⟩) ∨
      (∀ f id a, e ≠ .keep f id a) ∧ t.latest? u = none := by
  cases h with
  | edit e =>
    refine .inr ⟨by simp, ?_⟩
    cases e with
    | track f => exact he.elim
    | forget v =>
      cases he
      simp [Edit.apply, forget, latest?, Table.find?_erase]
    | clear => rfl
  | begin f => exact he.elim
  | keep f id started a _ _ _ haccepts =>
    cases he
    refine .inl ⟨f, id, a, rfl, rfl, ?_⟩
    simp [offer_of_accepts haccepts, latest?, Table.find?_insert]

theorem nodup_entries (h : Does g s d t) (hs : s.entries.keys.Nodup) : t.entries.keys.Nodup := by
  cases h with
  | edit e =>
    cases e with
    | track f => exact hs
    | forget v => exact Table.nodup_keys_erase hs
    | clear => exact List.nodup_nil
  | keep f id started a _ _ _ haccepts =>
    rw [offer_of_accepts haccepts]
    exact Table.nodup_keys_insert hs
  | _ => exact hs

end Does

namespace Annals

theorem tail (hg : Annals (x :: y :: g)) : Annals (y :: g) ∧ Does (y :: g) y.store x.deed x.store := by
  cases hg with
  | step hg hd => exact ⟨hg, hd⟩

theorem of_append (hg : Annals (newer ++ x :: g)) : Annals (x :: g) := by
  induction newer with
  | nil => exact hg
  | cons y newer ih =>
    cases newer with
    | nil => exact hg.tail.1
    | cons z newer => exact ih hg.tail.1

/-- Before a deed there was a store to which it was done. -/
theorem does {e : Deed} (hg : Annals (newer ++ x :: g)) (hx : x.deed = some e) :
    ∃ y older, g = y :: older ∧ Annals g ∧ Does g y.store (some e) x.store := by
  cases hg.of_append with
  | start => cases hx
  | @step y older d s hprev hd => exact ⟨y, older, rfl, hprev, hx ▸ hd⟩

theorem course (hg : Annals g) : Course (g.map (·.store)) := by
  induction hg with
  | start => exact .start
  | step _ hd ih => exact ih.stride hd.stride

theorem flights (hg : Annals g) : FlightTable.Chronicle (g.map (·.store.flights)) := by
  induction hg with
  | start => exact .start
  | step _ hd ih => exact ih.turn hd.flights

theorem nodup_entries (hg : Annals (x :: g)) : x.store.entries.keys.Nodup := by
  generalize hh : x :: g = h at hg
  induction hg generalizing x g with
  | start => cases hh; exact List.nodup_nil
  | step _ hd ih => cases hh; exact hd.nodup_entries (ih rfl)

/-- Flights are numbered in the order in which they begin. -/
theorem next_le (hg : Annals (x :: g)) (hy : y ∈ x :: g) :
    y.store.flights.next ≤ x.store.flights.next := by
  induction g generalizing x with
  | nil => exact List.mem_singleton.mp hy ▸ Nat.le_refl _
  | cons z g ih =>
    obtain rfl | hy := List.mem_cons.mp hy
    · exact Nat.le_refl _
    · obtain ⟨hg, hd⟩ := hg.tail
      exact Nat.le_trans (ih hg hy) hd.flights.next_le

theorem age_le (hg : Annals (x :: g)) (hy : y ∈ x :: g) : y.store.age u ≤ x.store.age u := by
  induction g generalizing x with
  | nil => exact List.mem_singleton.mp hy ▸ Nat.le_refl _
  | cons z g ih =>
    obtain rfl | hy := List.mem_cons.mp hy
    · exact Nat.le_refl _
    · obtain ⟨hg, hd⟩ := hg.tail
      refine Nat.le_trans (ih hg hy) ?_
      by_cases hx : ∀ e, x.deed = some e → ¬ e.Forgets u
      · exact Nat.le_of_eq (congrArg (fun p => p.generation + p.document) (hd.epoch hx).symm)
      · push Not at hx
        obtain ⟨e, he, hforgets⟩ := hx
        exact Nat.le_of_lt ((he ▸ hd).age_lt hforgets)

/-- Where a document has the epoch that it had, nothing has made the store forget it meanwhile. -/
theorem spared (hg : Annals (x :: g)) (hh : x :: g = newer ++ y :: older)
    (he : x.store.epoch u = y.store.epoch u) : Spared u newer := by
  intro z hz e hdeed hforgets
  obtain ⟨since, before, rfl⟩ := List.append_of_mem hz
  have hsplit : x :: g = since ++ z :: (before ++ y :: older) := by simp [hh]
  obtain ⟨p, rest, hp, hprev, hd⟩ := (hsplit ▸ hg).does hdeed
  have hy : y ∈ p :: rest := hp ▸ List.mem_append_right before List.mem_cons_self
  have hzx : z ∈ x :: g := hsplit ▸ List.mem_append_right since List.mem_cons_self
  have hlt : y.store.age u < x.store.age u :=
    calc y.store.age u ≤ p.store.age u := (hp ▸ hprev).age_le hy
      _ < z.store.age u := hd.age_lt hforgets
      _ ≤ x.store.age u := hg.age_le hzx
  simp [age, he] at hlt

/-- Where the editor shows nothing of a document that was not forgotten meanwhile, it has shown
nothing all the time. -/
theorem untracked (hg : Annals (x :: g)) (hh : x :: g = newer ++ y :: older) (hs : Spared u newer)
    (hx : x.store.current? u = none) : y.store.current? u = none := by
  induction newer generalizing x g with
  | nil =>
    cases hh
    exact hx
  | cons z newer ih =>
    obtain ⟨rfl, hrest⟩ := List.cons.inj hh
    obtain ⟨hz, hs⟩ := List.forall_mem_cons.mp hs
    cases g with
    | nil => simp at hrest
    | cons p g =>
      obtain ⟨hg, hd⟩ := hg.tail
      refine ih hg hrest hs ?_
      obtain hsame | ⟨f, -, hf⟩ := hd.current? hz
      · exact hsame ▸ hx
      · cases hf.symm.trans hx

/-- A text that the editor shows now, and did not show before, was tracked meanwhile. -/
theorem tracked (hg : Annals (x :: g)) (hh : x :: g = newer ++ y :: older) (hs : Spared u newer)
    (hx : x.store.current? u = some f) (hy : y.store.current? u ≠ some f) :
    ∃ z ∈ newer, z.deed = some (.edit (.track f)) := by
  induction newer generalizing x g with
  | nil =>
    cases hh
    exact absurd hx hy
  | cons z newer ih =>
    obtain ⟨rfl, hrest⟩ := List.cons.inj hh
    obtain ⟨hz, hs⟩ := List.forall_mem_cons.mp hs
    cases g with
    | nil => simp at hrest
    | cons p g =>
      obtain ⟨hg, hd⟩ := hg.tail
      obtain hsame | ⟨f', hdeed, hf⟩ := hd.current? hz
      · obtain ⟨w, hw, hdeed⟩ := ih hg hrest hs (hsame ▸ hx)
        exact ⟨w, List.mem_cons_of_mem x hw, hdeed⟩
      · exact ⟨x, List.mem_cons_self, Option.some.inj (hf.symm.trans hx) ▸ hdeed⟩

end Annals

/-- What was kept last for a document, in its flight, and nothing has decided anew since what is held
for the document. -/
def KeptLast (g : List Note) (u : Url) (id : FlightId) (e : StoredAnalysis) : Prop :=
  ∃ newer x older, g = newer ++ x :: older ∧ x.deed = some (.keep e.fingerprint id e.analysis) ∧
    e.fingerprint.url = u ∧ ∀ y ∈ newer, ∀ d, y.deed = some d → ¬ d.Settles u

theorem keptLast_cons {e : StoredAnalysis} : KeptLast (x :: g) u id e ↔
    x.deed = some (.keep e.fingerprint id e.analysis) ∧ e.fingerprint.url = u ∨
      (∀ d, x.deed = some d → ¬ d.Settles u) ∧ KeptLast g u id e := by
  constructor
  · rintro ⟨newer, y, older, hh, hy, hu, hnewer⟩
    cases newer with
    | nil =>
      cases hh
      exact .inl ⟨hy, hu⟩
    | cons z newer =>
      cases hh
      obtain ⟨hz, hnewer⟩ := List.forall_mem_cons.mp hnewer
      exact .inr ⟨hz, newer, y, older, rfl, hy, hu, hnewer⟩
  · rintro (⟨hx, hu⟩ | ⟨hx, newer, y, older, rfl, hy, hu, hnewer⟩)
    · exact ⟨[], x, g, rfl, hx, hu, by simp⟩
    · exact ⟨x :: newer, y, older, rfl, hy, hu, List.forall_mem_cons.mpr ⟨hx, hnewer⟩⟩

namespace Annals

/-- What is held for a document is what was kept last for it. -/
theorem latest?_iff (hg : Annals (x :: g)) {e : StoredAnalysis} :
    x.store.latest? u = some e ↔ ∃ id, KeptLast (x :: g) u id e := by
  generalize hh : x :: g = h at hg
  induction hg generalizing x g with
  | start =>
    cases hh
    refine ⟨fun he => by simp [empty, latest?] at he, ?_⟩
    rintro ⟨id, newer, y, older, hh, hy, -⟩
    cases newer with
    | nil => cases hh; cases hy
    | cons z newer => simp at hh
  | @step y older d s hg hd ih =>
    cases hh
    rw [exists_congr fun id => keptLast_cons]
    -- only a deed that settles the document changes what is held for it
    by_cases hsettles : ∀ b, d = some b → ¬ b.Settles u
    · rw [hd.latest?_of_not_settles hsettles, ih rfl]
      refine exists_congr fun id => ⟨fun h => .inr ⟨hsettles, h⟩, ?_⟩
      rintro (⟨hkeep, hu⟩ | h)
      · exact absurd hu (hsettles _ hkeep)
      · exact h.2
    · have hnot (id : FlightId) : ¬ ((∀ b, d = some b → ¬ b.Settles u) ∧ KeptLast (y :: older) u id e) :=
        fun h => hsettles h.1
      push Not at hsettles
      obtain ⟨b, rfl, hb⟩ := hsettles
      rw [exists_congr fun id => or_iff_left (hnot id)]
      obtain ⟨f, id, a, rfl, hu, hlatest⟩ | ⟨hne, hlatest⟩ := hd.latest?_of_settles hb
      · rw [hlatest]
        constructor
        · rintro ⟨⟩
          exact ⟨id, rfl, hu⟩
        · rintro ⟨i, hkeep, -⟩
          cases hkeep
          rfl
      · rw [hlatest]
        refine ⟨fun h => absurd h (by simp), ?_⟩
        rintro ⟨i, hkeep, -⟩
        exact absurd (Option.some.inj hkeep) (hne _ _ _)

theorem mem_settled_iff (hg : Annals (x :: g)) :
    (u, a) ∈ x.store.settled ↔ ∃ e, x.store.latest? u = some e ∧ e.analysis = a := by
  simp only [settled, List.mem_mergeSort, List.mem_map, Prod.mk.injEq, Prod.exists, latest?,
    Table.find?_eq_some_iff hg.nodup_entries]
  constructor
  · rintro ⟨v, e, he, rfl, rfl⟩
    exact ⟨e, he, rfl⟩
  · rintro ⟨e, he, rfl⟩
    exact ⟨u, e, he, rfl, rfl⟩

theorem begun (hg : Annals g) (hx : x ∈ g) (hdeed : x.deed = some (.begin f id)) :
    FlightTable.Begun (g.map (·.store.flights)) f id := by
  obtain ⟨newer, older, rfl⟩ := List.append_of_mem hx
  obtain ⟨y, rest, rfl, -, hd⟩ := hg.does hdeed
  refine ⟨newer.map (·.store.flights), x.store.flights, y.store.flights, rest.map (·.store.flights),
    by simp, ?_⟩
  generalize x.store = t at hd
  cases hd with
  | begin f hrun => exact ⟨hrun, rfl, rfl⟩

/-- A flight that runs has run ever since it began. -/
theorem running_since (hg : Annals (x :: g)) (hh : x :: g = newer ++ y :: older)
    (hrun : x.store.flights.running.find? f = some id)
    (hbegun : ∃ z ∈ y :: older, z.deed = some (.begin f id)) :
    y.store.flights.running.find? f = some id := by
  obtain ⟨z, hz, hdeed⟩ := hbegun
  have hy : Annals (y :: older) := (hh ▸ hg).of_append
  have hxs : FlightTable.Chronicle (x.store.flights :: g.map (·.store.flights)) := hg.flights
  have hys : FlightTable.Chronicle (y.store.flights :: older.map (·.store.flights)) := hy.flights
  rw [Table.find?_eq_some_iff hxs.isOrderly.distinct, hxs.running_iff] at hrun
  rw [Table.find?_eq_some_iff hys.isOrderly.distinct, hys.running_iff]
  refine ⟨hy.begun hz hdeed, ?_⟩
  cases ho : y.store.flights.outcome? id with
  | none => rfl
  | some o =>
    have hmem : y ∈ x :: g := hh ▸ List.mem_append_right newer List.mem_cons_self
    have hlast := hxs.outcome?_of_mem (List.mem_map_of_mem (f := (·.store.flights)) hmem) ho
    cases hrun.2.symm.trans hlast

/-- What is known where an analysis is kept. -/
theorem keeps (hg : Annals (newer ++ x :: g)) (hx : x.deed = some (.keep f id a)) :
    ∃ y older, g = y :: older ∧ Annals (y :: older) ∧ y.store.flights.running.find? f = some id ∧
      (∃ started, HasBegun g f id started ∧ y.store.epoch f.url = started) ∧
      x.store.current? = y.store.current? ∧ ∀ f', y.store.current? f.url = some f' → f' = f := by
  obtain ⟨y, older, rfl, hprev, hd⟩ := hg.does hx
  refine ⟨y, older, rfl, hprev, ?_⟩
  generalize x.store = t at hd
  cases hd with
  | keep f id started a hrun hf hbegun haccepts =>
    obtain ⟨hepoch, hcurrent⟩ := (accepts_iff _ _ _).mp haccepts
    exact ⟨hrun, ⟨started, hbegun, hepoch⟩, by rw [offer_of_accepts haccepts]; rfl, hcurrent⟩

theorem lt_next (hg : Annals (x :: g)) (hy : y ∈ x :: g) (hdeed : y.deed = some (.keep f id a)) :
    id < x.store.flights.next := by
  obtain ⟨newer, older, hh⟩ := List.append_of_mem hy
  obtain ⟨p, rest, rfl, hprev, hrun, -⟩ := (hh ▸ hg).keeps hdeed
  have hp : FlightTable.Chronicle (p.store.flights :: rest.map (·.store.flights)) := hprev.flights
  calc id < p.store.flights.next := (hp.isOrderly.waiting _ (Table.mem_of_find? hrun)).1
    _ ≤ x.store.flights.next := hg.next_le (hh ▸ by simp)

/-- A flight takes the number that is next. -/
theorem begins {b : Note} (hg : Annals (newer ++ b :: g)) (hb : b.deed = some (.begin f id)) :
    ∃ c older, g = c :: older ∧ Annals (c :: older) ∧ c.store.flights.next = id ∧
      b.store.flights.next = id + 1 := by
  obtain ⟨c, older, rfl, hprev, hd⟩ := hg.does hb
  refine ⟨c, older, rfl, hprev, ?_⟩
  generalize b.store = t at hd
  cases hd with
  | begin f hrun => exact ⟨rfl, rfl⟩

/-- A later flight has a greater number. -/
theorem numbered (hg : Annals (newer ++ x :: older)) (hx : x.deed = some (.begin f id))
    (hy : y ∈ older) (hdeed : y.deed = some (.begin f' id')) : id' < id := by
  obtain ⟨c, rest, rfl, hprev, rfl, -⟩ := hg.begins hx
  obtain ⟨since, before, hh⟩ := List.append_of_mem hy
  obtain ⟨-, -, -, -, -, hnext⟩ := (hh ▸ hprev).begins hdeed
  exact Nat.le_trans (Nat.le_of_eq hnext.symm) (hprev.next_le hy)

/-- What is kept after a flight has begun and comes of a later one is kept while the flight is on its
way. -/
theorem since_begin {b : Note} {since before : List Note}
    (hg : Annals (mid ++ y :: older)) (hh : mid ++ y :: older = since ++ b :: before)
    (hy : y.deed = some (.keep f' id' a')) (hb : b.deed = some (.begin f id)) (hlt : id < id') :
    ∃ rest, since = mid ++ y :: rest ∧ older = rest ++ b :: before := by
  obtain ⟨c, before, rfl, hprev, hid, -⟩ := (hh ▸ hg).begins hb
  have hearlier : y ∉ b :: c :: before := by
    intro hmem
    obtain rfl | hmem := List.mem_cons.mp hmem
    · cases hb.symm.trans hy
    · exact Nat.lt_asymm hlt (hid ▸ hprev.lt_next hmem hy)
  obtain ⟨l, rfl, hl⟩ | ⟨l, rfl, hl⟩ := List.append_eq_append_iff.mp hh
  · cases l with
    | nil => exact absurd (List.mem_of_mem_head? (congrArg List.head? hl ▸ rfl)) hearlier
    | cons z rest =>
      cases hl
      exact ⟨rest, rfl, rfl⟩
  · exact absurd (hl ▸ List.mem_append_right l List.mem_cons_self) hearlier

end Annals

/-- After all in `older` the analysis of `f'` was kept at `y`, and after all in `mid` a flight for `f`
may take its place that had begun before: the texts differ, the document was not forgotten since that
flight began, and either no text of it was tracked all that time, or `f` was tracked after `y`. -/
def MayReplace (f : Fingerprint) (id : FlightId) (f' : Fingerprint) (mid : List Note) (y : Note)
    (older : List Note) : Prop :=
  f ≠ f' ∧ ∃ since b before, mid ++ y :: older = since ++ b :: before ∧
    b.deed = some (.begin f id) ∧ y ∈ since ∧ Spared f.url since ∧
    ((∀ z ∈ since, z.store.current? f.url = none) ∨ ∃ z ∈ mid, z.deed = some (.edit (.track f)))

/-- The analysis of one text takes the place of one whose flight began later only where it may. -/
theorem Annals.mayReplace (hg : Annals (newer ++ x :: (mid ++ y :: older)))
    (hx : x.deed = some (.keep f id a)) (hy : y.deed = some (.keep f' id' a'))
    (hu : f'.url = f.url) (hlt : id < id') : MayReplace f id f' mid y older := by
  obtain ⟨p, rest, hp, hprev, hrun, ⟨started, hbegun, hepoch⟩, -, hcurrent⟩ := hg.keeps hx
  obtain ⟨since, b, before, hsince, hb, e, he, hstarted⟩ := hbegun
  obtain ⟨l, rfl, rfl⟩ := since_begin (hp ▸ hprev) hsince hy hb hlt
  obtain ⟨q, rest', hq, hyprev, hrun', -, hshown', hcurrent'⟩ := (hp ▸ hprev).keeps hy
  -- two flights for one text are never in the air at once
  have hne : f ≠ f' := by
    rintro rfl
    have hsplit : p :: rest = (mid ++ [y]) ++ q :: rest' := by rw [← hp, hq]; simp
    have hold : q.store.flights.running.find? f = some id := hprev.running_since hsplit hrun
      ⟨b, hq ▸ List.mem_append_right l List.mem_cons_self, hb⟩
    exact Nat.ne_of_lt hlt (Option.some.inj (hold.symm.trans hrun'))
  obtain ⟨s₁, s₂, rfl⟩ := List.append_of_mem he
  have hsplit : p :: rest = (mid ++ y :: l ++ b :: s₁) ++ e :: s₂ := by rw [← hp]; simp
  have hspared : Spared f.url (mid ++ y :: l ++ b :: s₁) :=
    hprev.spared hsplit (hepoch.trans hstarted.symm)
  refine ⟨hne, mid ++ y :: l, b, s₁ ++ e :: s₂, by simp, hb, by simp,
    fun z hz => hspared z (List.mem_append_left _ hz), ?_⟩
  cases hnow : p.store.current? f.url with
  | none =>
    refine .inl fun z hz => ?_
    obtain ⟨t₁, t₂, ht⟩ := List.append_of_mem hz
    have hsplit : p :: rest = t₁ ++ z :: (t₂ ++ b :: (s₁ ++ e :: s₂)) := by
      rw [← hp, hsince, ht, List.append_assoc, List.cons_append]
    refine hprev.untracked hsplit (fun w hw => hspared w (List.mem_append_left _ ?_)) hnow
    exact ht ▸ List.mem_append_left _ hw
  | some g =>
    obtain rfl := hcurrent g hnow
    refine .inr (hprev.tracked hp.symm (fun z hz => hspared z ?_) hnow fun hold => ?_)
    · simp [hz]
    · rw [hshown', ← hu] at hold
      exact hne (hcurrent' _ hold)

end AnalysisStore
end LanguageServer
