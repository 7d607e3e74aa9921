import LanguageServer.Proofs.Analysis.Annals

/-! The runs of tasks that ask a store for analyses, whole or in slices, in any order. Requests for
one text share one computation, and one that fails leaves no trace. -/
namespace LanguageServer.AnalysisStore

variable {σ : Type}

/-- Tasks that change a store only by asking it for analyses. What they do with an analysis is up to
them, and what computes one may ask for analyses too. -/
inductive Asks (l : Lens σ AnalysisStore) : {α : Type} → Task σ α → Prop
  | keeps {α : Type} {t : Task σ α} : t.Keeps (SameStore l) → t.DropsNone → Asks l t
  | call (f : Fingerprint) {compute : Task σ (Except Failure Analysis)} :
    Asks l compute → Asks l (getOrCompute l f compute)
  | bind {α β : Type} {t : Task σ α} {g : α → Task σ β} :
    Asks l t → (∀ a, Asks l (g a)) → Asks l (t.bind g)
  | fork {t : Task σ Unit} : Asks l t → Asks l (Task.fork t)

/-- The runs of callers of a store that is empty at first, with the callers and the stores that there
have been. Callers come and are dropped at any time, some of them cut into slices; the store is
edited, whatever else there is to the state changes, and time passes, between any two moves. -/
inductive CallRun (l : Lens σ AnalysisStore) :
    List TaskId → List AnalysisStore → Machine σ → Prop
  | start (s : σ) : l.get s = .empty → CallRun l [] [.empty] (Machine.start s)
  | call {cs : List TaskId} {h : List AnalysisStore} {m : Machine σ} {t : Task σ Unit} :
    CallRun l cs h m → Asks l t → CallRun l (m.next :: cs) h (m.spawn t)
  | slice {cs : List TaskId} {h : List AnalysisStore} {m : Machine σ} {t : Task σ Unit} :
    CallRun l cs h m → Asks l t → CallRun l (m.next :: cs) h (m.spawn t.sliced)
  | drop {cs : List TaskId} {h : List AnalysisStore} {m : Machine σ} (i : TaskId) :
    CallRun l cs h m → i ∈ cs → CallRun l cs h (m.spawn (Task.abort i))
  | edit {cs : List TaskId} {h : List AnalysisStore} {m : Machine σ} (e : Edit) :
    CallRun l cs h m → CallRun l cs (e.apply (l.get m.state) :: h)
      { m with state := l.modify e.apply m.state }
  | other {cs : List TaskId} {h : List AnalysisStore} {m : Machine σ} (s : σ) (now : Instant) :
    CallRun l cs h m → SameStore l m.state s → CallRun l cs h { m with state := s, now := now }
  | move {cs : List TaskId} {h : List AnalysisStore} {m n : Machine σ} (i : TaskId) :
    CallRun l cs h m → m.step? i = some n → CallRun l cs (l.get n.state :: h) n

/-- The part that a task plays: it asks for analyses, it computes one, or it has one to keep. -/
inductive Duty where
  | unborn
  | gone
  | guest
  | computing (f : Fingerprint) (id : FlightId)
  | keeping (f : Fingerprint) (id : FlightId)

namespace Duty

/-- What the part means to the flights alone. -/
def part : Duty → FlightTable.Part Fingerprint
  | .unborn => .unborn
  | .gone => .gone
  | .guest => .guest
  | .computing f id => .flight f id
  | .keeping f id => .flight f id

def isGuest : Duty → Bool
  | .guest => true
  | _ => false

end Duty

structure Journal where
  notes : List Note
  callers : List TaskId

namespace Journal

def note (j : Journal) (d : Option Deed) (s : AnalysisStore) : Journal :=
  { j with notes := ⟨d, s⟩ :: j.notes }

def stores (j : Journal) : List AnalysisStore := j.notes.map (·.store)

/-- What the journal tells of the flights alone. -/
def log (j : Journal) : FlightTable.Log Fingerprint Analysis := ⟨j.stores.map (·.flights), j.callers⟩

end Journal

/-- A world of callers as one in which flights are shared. -/
def aloft (w : World Journal Duty) :
    World (FlightTable.Log Fingerprint Analysis) (FlightTable.Part Fingerprint) :=
  w.map Journal.log Duty.part

/-- The journal tells what has led to the store, and nothing is held for a text while the analysis of
it is being computed. -/
structure Accounts (l : Lens σ AnalysisStore) (w : World Journal Duty) (s : σ) : Prop where
  annals : Annals w.told.notes
  noted : ∃ d older, w.told.notes = ⟨d, l.get s⟩ :: older
  flights : (FlightTable.Tells (l.andThen flightsLens)) (aloft w) s
  fresh : ∀ i f id, w.role i = .computing f id → (l.get s).get? f = none

def callPact (l : Lens σ AnalysisStore) : Pact Journal Duty σ where
  holds := Accounts l
  shows _ _ := True
  own j j' := j.notes <:+ j'.notes ∧ j'.callers = j.callers
  others j j' := j.notes <:+ j'.notes ∧ j.callers <:+ j'.callers
  unborn := .unborn
  gone := .gone
  isLoose := Duty.isGuest

variable {l : Lens σ AnalysisStore} {w : World Journal Duty} {s s' : σ} {i me : TaskId}

theorem callPact_isCalm : (callPact l).IsCalm where
  own_refl _ := ⟨List.suffix_rfl, rfl⟩
  own_trans _ _ _ hf hg := ⟨hf.1.trans hg.1, hg.2.trans hf.2⟩
  others_trans _ _ _ hf hg := ⟨hf.1.trans hg.1, hf.2.trans hg.2⟩
  others_of_own _ _ _ hf hg := ⟨hf.1.trans hg.1, hf.2 ▸ hg.2⟩
  shows_own _ _ _ _ _ := trivial
  gone_ne h := by cases h
  unborn_fast := rfl
  others_refl _ := ⟨List.suffix_rfl, List.suffix_rfl⟩

theorem isLive_computing (f : Fingerprint) (id : FlightId) : (callPact l).IsLive (.computing f id) :=
  ⟨by simp [callPact], by simp [callPact]⟩

theorem isLive_keeping (f : Fingerprint) (id : FlightId) : (callPact l).IsLive (.keeping f id) :=
  ⟨by simp [callPact], by simp [callPact]⟩

theorem callPact_own_note (j : Journal) (d : Option Deed) (s : AnalysisStore) :
    (callPact l).own j (j.note d s) := ⟨List.suffix_cons (Note.mk d s) j.notes, rfl⟩

@[simp] theorem aloft_role (w : World Journal Duty) (i : TaskId) :
    (aloft w).role i = (w.role i).part := rfl

theorem aloft_cast (w : World Journal Duty) (i : TaskId) (r : Duty) :
    aloft (w.cast i r) = (aloft w).cast i r.part := World.map_cast ..

theorem aloft_note (w : World Journal Duty) (d : Option Deed) (s : AnalysisStore) :
    aloft (w.tell (w.told.note d s)) = (aloft w).tell ((aloft w).told.note s.flights) := rfl

namespace Accounts

/-- A task that computes nothing takes another such part. -/
theorem cast (hs : Accounts l w s) {r : Duty} (hold : ∀ f id, (w.role i).part ≠ .flight f id)
    (hnew : ∀ f id, r.part ≠ .flight f id)
    (hcaller : i ∈ w.told.callers → r.part = .guest ∨ r.part = .gone) : Accounts l (w.cast i r) s where
  annals := hs.annals
  noted := hs.noted
  flights := aloft_cast w i r ▸ hs.flights.cast hold hnew hcaller
  fresh j f id hj := by
    rw [World.role_cast] at hj
    split at hj
    · exact absurd (congrArg Duty.part hj) (hnew f id)
    · exact hs.fresh j f id hj

theorem course (hs : Accounts l w s) : Course w.told.stores := hs.annals.course

theorem current (hs : Accounts l w s) : ∃ older, w.told.stores = l.get s :: older := by
  obtain ⟨d, older, hnoted⟩ := hs.noted
  exact ⟨older.map Note.store, congrArg (List.map Note.store) hnoted⟩

theorem does (hs : Accounts l w s) {d : Option Deed} {a : AnalysisStore}
    (ht : Does w.told.notes (l.get s) d a) : Annals (w.told.note d a).notes := by
  obtain ⟨d, older, hnoted⟩ := hs.noted
  have hg := hs.annals
  simp only [Journal.note, hnoted] at hg ht ⊢
  exact hg.step ht

theorem mem_notes (hs : Accounts l w s) : ∃ d, ⟨d, l.get s⟩ ∈ w.told.notes := by
  obtain ⟨d, older, hnoted⟩ := hs.noted
  exact ⟨d, hnoted ▸ List.mem_cons_self⟩

/-- A step that the flights do not notice, and that holds nothing for a text that is computed. -/
theorem turn (hs : Accounts l w s) {d : Option Deed} {a : AnalysisStore} (ha : l.get s' = a)
    (ht : Does w.told.notes (l.get s) d a) (hsame : a.flights = (l.get s).flights)
    (hfresh : ∀ i f id, w.role i = .computing f id → a.get? f = none) :
    Accounts l (w.tell (w.told.note d a)) s' := by
  subst ha
  refine ⟨hs.does ht, ⟨d, w.told.notes, rfl⟩, ?_, hfresh⟩
  rw [aloft_note]
  exact hs.flights.rest hsame

theorem isOrderly (hs : Accounts l w s) : (l.get s).flights.IsOrderly := by
  obtain ⟨older, hcurrent⟩ := hs.flights.current
  have hc : FlightTable.Chronicle ((l.get s).flights :: older) := hcurrent ▸ hs.flights.chronicle
  exact hc.isOrderly

theorem find?_running (hs : Accounts l w s) {f : Fingerprint} {id : FlightId}
    (hi : (w.role i).part = .flight f id) : (l.get s).flights.running.find? f = some id :=
  (Table.find?_eq_some_iff hs.isOrderly.distinct).mpr ((hs.flights.flights f id).mpr ⟨i, hi⟩)

/-- A task goes on with another part that means the same to the flights. -/
theorem recast (hs : Accounts l w s) {r : Duty} (hpart : r.part = (w.role i).part)
    (hfresh : ∀ f id, r = .computing f id → (l.get s).get? f = none) : Accounts l (w.cast i r) s where
  annals := hs.annals
  noted := hs.noted
  flights := by
    rw [aloft_cast, hpart, ← aloft_role, World.cast_role]
    exact hs.flights
  fresh j f id hj := by
    rw [World.role_cast] at hj
    split at hj
    · exact hfresh f id hj
    · exact hs.fresh j f id hj

variable (hl : l.IsLawful) {f : Fingerprint} {id : FlightId}
include hl

theorem begin (hs : Accounts l w s) (hvacant : (l.get s).flights.running.find? f = none)
    (hf : (l.get s).get? f = none) (hi : w.role i = .unborn) : Accounts l
      ((w.tell (w.told.note (some (.begin f (l.get s).flights.next)) ((l.get s).begun f))).cast i
        (.computing f (l.get s).flights.next))
      (l.set ((l.get s).begun f) s) where
  annals := hs.does (.begin f hvacant hf)
  noted := ⟨some (.begin f (l.get s).flights.next), w.told.notes, by
    simp only [World.told_cast, World.told_tell, Journal.note, hl.get_set]⟩
  flights := by
    rw [aloft_cast]
    exact hs.flights.begin (hl.andThen flightsLens_isLawful) hvacant (congrArg Duty.part hi)
  fresh j g n hj := by
    rw [hl.get_set]
    rw [World.role_cast] at hj
    split at hj
    · cases hj
      exact hf
    · exact hs.fresh j g n hj

/-- What was found is kept, if it may be, and the flight still runs. -/
theorem keep (hs : Accounts l w s) (hme : w.role me = .computing f id) {started : Epoch}
    (hbegun : HasBegun w.told.notes f id started) (a : Analysis) : ∃ d, Accounts l
      ((w.tell (w.told.note d ((l.get s).offer f started a))).cast me (.keeping f id))
      (l.set ((l.get s).offer f started a) s) := by
  have hkeeping : Accounts l (w.cast me (.keeping f id)) s := hs.recast (by rw [hme]; rfl) (by simp)
  have hrun := hs.find?_running (congrArg Duty.part hme)
  -- another flight that is still computing is for another text
  have hothers (j : TaskId) (g : Fingerprint) (n : FlightId)
      (hj : (w.cast me (.keeping f id)).role j = .computing g n) :
      ((l.get s).offer f started a).get? g = none := by
    have hne : j ≠ me := by
      rintro rfl
      simp at hj
    rw [World.role_cast_of_ne _ _ hne] at hj
    refine get?_offer started a ?_ (hs.fresh j g n hj)
    rintro rfl
    cases hrun.symm.trans (hs.find?_running (congrArg Duty.part hj))
    exact hne (hs.flights.single j me f id (congrArg Duty.part hj) (congrArg Duty.part hme))
  have hdoes : ∃ d, Does w.told.notes (l.get s) d ((l.get s).offer f started a) := by
    by_cases haccepts : (l.get s).accepts f started = true
    · exact ⟨_, .keep f id started a hrun (hs.fresh _ _ _ hme) hbegun haccepts⟩
    · rw [offer, if_neg haccepts]
      exact ⟨none, .rest⟩
  obtain ⟨d, hd⟩ := hdoes
  exact ⟨d, hkeeping.turn (hl.get_set _ s) hd (flights_offer _ f started a) hothers⟩

theorem land (hs : Accounts l w s) (hme : (w.role me).part = .flight f id) (o : Except Failure Analysis)
    (hfail : ∀ e, o = .error e → (l.get s).get? f = none) : Accounts l
      ((w.tell (w.told.note none ((l.get s).land f id o))).cast me .gone)
      (l.set ((l.get s).land f id o) s) where
  annals := hs.does (.land f id o (hs.find?_running hme) hfail)
  noted := ⟨none, w.told.notes, by
    simp only [World.told_cast, World.told_tell, Journal.note, hl.get_set]⟩
  flights := by
    rw [aloft_cast]
    exact hs.flights.land (hl.andThen flightsLens_isLawful) hme o
  fresh j g n hj := by
    rw [hl.get_set]
    rw [World.role_cast] at hj
    split at hj
    · cases hj
    · exact hs.fresh j g n hj

end Accounts

/-- A guest leaves the store as it is. -/
theorem callPact_hosts : (callPact l).Hosts .guest (SameStore l) where
  fair := callPact_isCalm.toIsFair
  live := ⟨by simp [callPact], by simp [callPact]⟩
  keeps w s s' hsame hs := by
    have hsame : l.get s' = l.get s := hsame
    have hflights := (FlightTable.pact_hosts (l := l.andThen flightsLens)).keeps _ s s'
      (congrArg AnalysisStore.flights hsame) hs.flights
    exact ⟨hs.annals, hsame ▸ hs.noted, hflights, hsame ▸ hs.fresh⟩
  arrives w s i hi hs := by
    have hi : w.role i = .unborn := hi
    exact Accounts.cast hs (by simp [hi, Duty.part]) (by simp [Duty.part]) fun _ => .inl rfl
  leaves w s i hi hs := Accounts.cast hs (by simp [hi, Duty.part]) (by simp [callPact, Duty.part])
    fun _ => .inr rfl

section Asks

variable (hl : l.IsLawful)
include hl

omit hl in
theorem notes_since {v : World Journal Duty} (hv : (callPact l).Since me w v) :
    w.told.notes <:+ v.told.notes := by
  obtain htold | hothers := hv.1
  · exact htold ▸ List.suffix_rfl
  · exact hothers.1

/-- A flight keeps to the pact from its begin until it has landed. -/
theorem honors_flight {f : Fingerprint} {id : FlightId} {started : Epoch}
    {compute : Task σ (Except Failure Analysis)} {waited : Bool}
    (hcompute : compute.sliced.Honors (callPact l) me waited
      (fun _ v s => (callPact l).Since me w v ∧ Accounts l v s) w s)
    (hme : w.role me = .computing f id) (hbegun : HasBegun w.told.notes f id started) :
    (flight l f started id compute).sliced.Honors (callPact l) me waited
      (fun _ => (callPact l).Rests me) w s := by
  have hc := callPact_isCalm (l := l).toIsFair
  rw [flight_eq, Task.sliced_bind]
  refine Task.Honors.bind (hcompute.mono fun o v s ⟨hv, hs⟩ waited => ?_)
  have hme : v.role me = .computing f id := hv.2.trans hme
  cases o with
  | ok a =>
    -- the analysis is kept in one step, and the flight lands in the next one
    refine .of_since hc waited hs (hme ▸ isLive_computing f id) fun u s hu hs now _ s' _ hkeeps => ?_
    cases hkeeps
    obtain ⟨d, hkept⟩ :=
      hs.keep hl (hu.2.trans hme) (hbegun.of_suffix ((notes_since hv).trans (notes_since hu))) a
    refine ⟨_, _, callPact_own_note u.told d _, isLive_keeping f id, ?_, hkept, ?_⟩
    · rw [hu.2.trans hme]
      rfl
    · rintro u s hu hs now _ s' - hlands
      cases hlands
      have hme : (u.role me).part = .flight f id :=
        congrArg Duty.part (hu.2.trans (World.role_cast_self _ _ _))
      exact ⟨_, callPact_own_note u.told _ _, hs.land hl hme (.ok a) fun e he => by cases he⟩
  | error e =>
    refine .of_since hc waited hs (hme ▸ isLive_computing f id) fun v s hv hs now _ s' _ hlands => ?_
    cases hlands
    have hme := hv.2.trans hme
    have hpart := congrArg Duty.part hme
    exact ⟨_, callPact_own_note v.told _ _,
      hs.land hl hpart (.error e) fun _ _ => hs.fresh _ _ _ hme⟩

/-- A caller is given what is held, or it waits for a flight, which it may have begun. -/
theorem honors_getOrCompute {f : Fingerprint} {compute : Task σ (Except Failure Analysis)}
    (hcompute : ∀ i v s, (callPact l).IsLive (v.role i) → Accounts l v s →
      compute.sliced.Honors (callPact l) i true
        (fun _ u s => (callPact l).Since i v u ∧ Accounts l u s) v s)
    {waited : Bool} (hs : Accounts l w s) (hme : (callPact l).IsLive (w.role me))
    {Q : Except Failure Analysis → World Journal Duty → σ → Prop}
    (hQ : ∀ o v s, (callPact l).Since me w v → Accounts l v s → Q o v s) :
    (getOrCompute l f compute).sliced.Honors (callPact l) me waited Q w s := by
  have hc := callPact_isCalm (l := l).toIsFair
  simp only [getOrCompute, Bind.bind, Task.sliced_bind]
  refine (Task.honorsFrom_bind _ _ _ (.inl rfl)).mpr (Task.honors_sliced_read ?_)
  refine .of_since hc waited hs hme fun v s hv hs => ?_
  cases (l.get s).get? f with
  | some a => exact hQ _ v s hv hs
  | none =>
    simp only [Task.sliced_bind, Task.honors_bind]
    refine Task.honors_sliced_read (.of_since hc false hs (hv.2 ▸ hme) fun v' s hv' hs => ?_)
    have hv := hv'.trans hc hv
    obtain ⟨d, hseen⟩ := hs.mem_notes
    -- whoever waits for a flight is given its outcome, whoever began it
    have hawait (id : FlightId) (u : World Journal Duty) (s : σ) (hu : (callPact l).Since me w u)
        (hs : Accounts l u s) : (FlightTable.await (l.andThen flightsLens) (.flight id)).sliced.Honors
          (callPact l) me false Q u s := by
      refine .of_since hc false hs (hu.2 ▸ hme) fun u' s hu' hs _ o s' _ ho => ?_
      obtain ⟨o, -, heq⟩ := Option.map_eq_some_iff.mp ho
      cases heq
      exact hQ _ _ _ (hu'.trans hc hu) hs
    refine FlightTable.honors_join (hl.andThen flightsLens_isLawful)
      (.of_since hc false hs (hv.2 ▸ hme) fun u s hu hs => ?_)
    have hread := notes_since hu
    have hu := hu.trans hc hv
    refine ⟨fun id _ => hawait id u s hu hs, fun a _ _ => hQ _ u s hu hs,
      fun hrun hheld i hi hunborn => ?_⟩
    have hbegun := hs.begin hl hrun hheld hunborn
    refine ⟨_, .computing f (l.get s).flights.next, callPact_own_note u.told _ _, isLive_computing _ _,
      fun v s' hv hs' => ?_, hawait _ _ _ ?_ hbegun⟩
    · have hrole := hv.2.trans (World.role_cast_self _ _ _)
      refine honors_flight hl (hcompute i v s' (hrole ▸ isLive_computing _ _) hs') hrole ?_
      exact .of_suffix ⟨[], _, u.told.notes, rfl, rfl, _, hread.mem hseen, rfl⟩ hv.1.1
    · have hnoted : (callPact l).Since me u ((u.tell (u.told.note
          (some (.begin f (l.get s).flights.next)) ((l.get s).begun f))).cast i
          (.computing f (l.get s).flights.next)) :=
        ⟨.inr ⟨List.suffix_cons _ _, List.suffix_rfl⟩, World.role_cast_of_ne _ _ hi.symm⟩
      exact hnoted.trans hc hu

/-- A task that asks for analyses keeps to the pact. -/
theorem Asks.honors {α : Type} {t : Task σ α} (ht : Asks l t) {waited : Bool}
    (hs : Accounts l w s) (hme : (callPact l).IsLive (w.role me))
    {Q : α → World Journal Duty → σ → Prop}
    (hQ : ∀ a v s, (callPact l).Since me w v → Accounts l v s → Q a v s) :
    t.sliced.Honors (callPact l) me waited Q w s := by
  induction ht generalizing me w s waited with
  | keeps ht hd => exact ht.sliced.honors callPact_hosts hd.sliced hs hme hQ
  | call f _ ih =>
    exact honors_getOrCompute hl (fun i v s hi hs => ih hs hi fun _ u s hu hs => ⟨hu, hs⟩) hs hme hQ
  | bind _ _ iht ihg =>
    rw [Task.sliced_bind]
    refine Task.Honors.bind (iht hs hme fun a v s hv hs waited => ?_)
    exact ihg a hs (hv.2 ▸ hme) fun b u s hu => hQ b u s (hu.trans callPact_isCalm.toIsFair hv)
  | fork _ ih =>
    refine callPact_hosts.honors_fork (fun i v hv => callPact_hosts.ready hv fun u s hu hs => ?_) hs
      fun i v hv hs => hQ i v _ hv hs
    exact ih hs (hu ▸ callPact_hosts.live) fun _ u' s hu' hs => ⟨hu', hs⟩

/-- Those who ask for analyses may join as guests. -/
theorem Asks.ready {t : Task σ Unit} (ht : Asks l t) (hi : w.role i = .guest) :
    (callPact l).Ready i w t.sliced :=
  callPact_hosts.ready hi fun _ _ hv hs =>
    ht.honors hl hs (hv ▸ callPact_hosts.live) fun _ _ _ hu hs => ⟨hu, hs⟩

end Asks

/-- A caller that there has been asks for something still, or is gone. -/
theorem Accounts.caller (hs : Accounts l w s) (hi : i ∈ w.told.callers) :
    w.role i = .guest ∨ w.role i = .gone := by
  have hpart := hs.flights.callers i hi
  simp only [aloft_role] at hpart
  cases h : w.role i <;> simp [h, Duty.part] at hpart ⊢

variable {cs : List TaskId} {h : List AnalysisStore} {m : Machine σ}

/-- A caller joins as a guest. -/
theorem callPact_binds_called {t : Task σ Unit} (hm : (callPact l).Binds w m)
    (ht : ∀ v, v.role m.next = .guest → (callPact l).Ready m.next v t) :
    (callPact l).Binds
      ((w.tell { w.told with callers := m.next :: w.told.callers }).cast m.next .guest)
      (m.spawn t) := by
  have hunborn : w.role m.next = .unborn := hm.unborn _ (Nat.le_refl _)
  have hnext : (callPact l).others w.told { w.told with callers := m.next :: w.told.callers } :=
    ⟨List.suffix_rfl, List.suffix_cons _ _⟩
  refine hm.spawn callPact_isCalm.toIsFair hnext trivial callPact_hosts.live ?_
    (ht _ (World.role_cast_self _ _ _))
  have hs := callPact_hosts.arrives w _ _ hunborn hm.holds
  obtain ⟨hchronicle, hcurrent, hflights, hsingle, hcallers⟩ := hs.flights
  refine ⟨hs.annals, hs.noted, ⟨hchronicle, hcurrent, hflights, hsingle, fun i hi => ?_⟩, hs.fresh⟩
  obtain rfl | hi := List.mem_cons.mp hi
  · exact .inl (congrArg Duty.part (World.role_cast_self _ _ _))
  · exact hcallers i hi

/-- All that happens to the store in a run is told, in the order in which it happens. -/
theorem CallRun.binds (hl : l.IsLawful) (hr : CallRun l cs h m) :
    ∃ w, (callPact l).Binds w m ∧ h.Sublist w.told.stores ∧ w.told.callers = cs := by
  have hc : (callPact l).IsFair := callPact_isCalm.toIsFair
  induction hr with
  | start s hs =>
    have hflights : FlightTable.Tells (l.andThen flightsLens)
        (aloft ⟨⟨[⟨none, .empty⟩], []⟩, fun _ => .unborn⟩) s := by
      refine ⟨.start, ⟨[], ?_⟩, ?_, ?_, ?_⟩
      · simp [aloft, World.map, Journal.log, Journal.stores, Lens.andThen, flightsLens, hs]
      · simp [Lens.andThen, flightsLens, hs, empty, FlightTable.empty, Table.empty, Duty.part]
      · simp [Duty.part]
      · simp [aloft, World.map, Journal.log]
    refine ⟨⟨⟨[⟨none, .empty⟩], []⟩, fun _ => .unborn⟩, ⟨⟨.start, ⟨none, [], ?_⟩, hflights, ?_⟩, trivial, ?_, ?_,
      List.nodup_nil, ?_, fun _ _ => rfl⟩, List.Sublist.refl _, rfl⟩
    · simp [Machine.start, hs]
    · simp
    · simp [Machine.start]
    · simp [Machine.start]
    · simp [Machine.start, Pact.IsLive, callPact]
  | call _ ht ih =>
    obtain ⟨w, hm, hh, rfl⟩ := ih
    refine ⟨_, callPact_binds_called hm fun v hv => ?_, hh, rfl⟩
    exact (ht.ready hl hv).of_sliced callPact_isCalm
  | slice _ ht ih =>
    obtain ⟨w, hm, hh, rfl⟩ := ih
    exact ⟨_, callPact_binds_called hm fun v hv => ht.ready hl hv, hh, rfl⟩
  | @drop cs h m i _ hi ih =>
    obtain ⟨w, hm, hh, rfl⟩ := ih
    exact ⟨_, callPact_hosts.binds_abort rfl (callPact_isCalm.others_refl _) hm fun v s hv hs =>
      hs.caller (hv.2.subset hi), hh, rfl⟩
  | @edit cs h m e _ ih =>
    obtain ⟨w, hm, hh, rfl⟩ := ih
    have hedited := hm.holds.turn (hl.get_set (e.apply (l.get m.state)) m.state) (.edit e)
      (flights_edit e _) fun i f id hi => get?_edit e (hm.holds.fresh i f id hi)
    have hnext : (callPact l).others w.told
        (w.told.note (some (.edit e)) (e.apply (l.get m.state))) :=
      ⟨List.suffix_cons _ _, List.suffix_rfl⟩
    exact ⟨_, hm.others hc hnext hedited trivial, hh.cons_cons _, rfl⟩
  | other s now _ hs ih =>
    obtain ⟨w, hm, hh, rfl⟩ := ih
    exact ⟨w, hm.others hc (callPact_isCalm.others_refl _) (callPact_hosts.keeps _ _ _ hs hm.holds)
      trivial, hh, rfl⟩
  | @move cs h m n i _ hn ih =>
    obtain ⟨w, hm, hh, rfl⟩ := ih
    obtain ⟨v, ⟨hv, hcallers⟩, hn⟩ := hm.step hc (callPact_isCalm.others_refl _) hn
    have hrest := hn.holds.turn rfl .rest rfl hn.holds.fresh
    have hnext : (callPact l).others v.told (v.told.note none (l.get n.state)) :=
      ⟨List.suffix_cons _ _, List.suffix_rfl⟩
    exact ⟨_, hn.others hc hnext hrest trivial, (hh.trans (hv.sublist.map _)).cons_cons _, hcallers⟩

end LanguageServer.AnalysisStore

/-! Which analysis of a document a store holds, in every run of callers who ask for analyses of any of
its texts and whose flights land in any order. -/
namespace LanguageServer.AnalysisStore

variable {σ : Type} {l : Lens σ AnalysisStore}

/-- What the annals of a store say of what it holds. Flights are numbered as they begin; what is held
for a document is what was kept last for it; and what is kept comes of the latest flight of which
anything was kept before, unless the store could not tell which text is the newer one. -/
structure KeepsOrder (g : List Note) (s : AnalysisStore) : Prop where
  annals : Annals g
  current : ∃ d older, g = ⟨d, s⟩ :: older
  numbered : ∀ newer x older, g = newer ++ x :: older → ∀ f id, x.deed = some (.begin f id) →
    ∀ y ∈ older, ∀ f' id', y.deed = some (.begin f' id') → id' < id
  held : ∀ u e, s.latest? u = some e ↔ ∃ id, KeptLast g u id e
  settled : ∀ u a, (u, a) ∈ s.settled ↔ ∃ e, s.latest? u = some e ∧ e.analysis = a
  ordered : ∀ newer x mid y older, g = newer ++ x :: (mid ++ y :: older) →
    ∀ f id a f' id' a', x.deed = some (.keep f id a) → y.deed = some (.keep f' id' a') →
      f'.url = f.url → id' ≤ id ∨ MayReplace f id f' mid y older

/-- In every run what a store holds is told by its annals, in which nothing is kept in place of what a
later flight has found but where the store could not know. -/
theorem CallRun.keepsOrder {cs : List TaskId} {h : List AnalysisStore} {m : Machine σ}
    (hl : l.IsLawful) (hr : CallRun l cs h m) :
    ∃ g, h.Sublist (g.map (·.store)) ∧ KeepsOrder g (l.get m.state) := by
  obtain ⟨w, hm, hh, -⟩ := hr.binds hl
  have hg := hm.holds.annals
  obtain ⟨d, older, hnoted⟩ := hm.holds.noted
  have hnow : Annals (⟨d, l.get m.state⟩ :: older) := hnoted ▸ hg
  refine ⟨w.told.notes, hh, hg, ⟨d, older, hnoted⟩, fun newer x older hsplit f id hx y hy f' id' =>
    (hsplit ▸ hg).numbered hx hy, fun u e => hnoted ▸ hnow.latest?_iff,
    fun u a => hnow.mem_settled_iff, fun newer x mid y older hsplit f id a f' id' a' hx hy hu => ?_⟩
  by_cases hle : id' ≤ id
  · exact .inl hle
  · exact .inr ((hsplit ▸ hg).mayReplace hx hy hu (Nat.lt_of_not_le hle))

/-! Flights for two texts of one document are on their way. The later one lands first and its analysis
is held, and then the earlier one lands and takes its place: where nobody has opened the document, and
where the editor has gone back to the earlier text. -/

section Late

/-- A caller who asks for the analysis of a text. -/
def asking (f : Fingerprint) : Task AnalysisStore Unit :=
  (getOrCompute ⟨id, fun s _ => s⟩ f (.done (.ok default))).bind fun _ => .done ()

theorem asks_asking (f : Fingerprint) : Asks ⟨id, fun s _ => s⟩ (asking f) :=
  .bind (.call _ (.keeps trivial trivial)) fun _ => .keeps trivial trivial

def told (e : Edit) (m : Machine AnalysisStore) : Machine AnalysisStore :=
  { m with state := e.apply m.state }

/-- Two callers have begun a flight each, and the flight of the second has landed. -/
def outrun (f g : Fingerprint) : Option (Machine AnalysisStore) :=
  ((((Machine.start .empty).spawn (asking f)).spawn (asking g)).step? 0).bind fun m =>
    (m.step? 1).bind (·.step? 3)

theorem outrun_run {f g : Fingerprint} {m : Machine AnalysisStore} (hm : outrun f g = some m) :
    ∃ h, CallRun ⟨id, fun s _ => s⟩ [1, 0] (m.state :: h) m := by
  obtain ⟨m₁, hm₁, hm⟩ := Option.bind_eq_some_iff.mp hm
  obtain ⟨m₂, hm₂, hm⟩ := Option.bind_eq_some_iff.mp hm
  have hasked := ((CallRun.start _ rfl).call (asks_asking f)).call (asks_asking g)
  exact ⟨_, ((hasked.move 0 hm₁).move 1 hm₂).move 3 hm⟩

/-- What the second flight has found for `g` is held while the first is on its way, which has then
landed, and what it has found for `f` is held. -/
def overrules (f g : Fingerprint) (s t : AnalysisStore) : Bool :=
  s.flights.running.find? f == some 1 && (s.flights.outcome? 2).any (·.isOk) &&
    (s.latest? f.url).map (·.fingerprint) == some g && (t.flights.outcome? 1).any (·.isOk) &&
      (t.latest? f.url).map (·.fingerprint) == some f

/-- What a later flight has found is replaced by what an earlier one finds. -/
theorem CallRun.keeps_earlier :
    (∃ h s t, ∃ m : Machine AnalysisStore, CallRun ⟨id, fun s _ => s⟩ [1, 0] (t :: s :: h) m ∧
      m.state = t ∧ t.current? default = none ∧
      overrules (.stat default 1 0) (.stat default 2 0) s t) ∧
    ∃ h s t, ∃ m : Machine AnalysisStore, CallRun ⟨id, fun s _ => s⟩ [1, 0] (t :: s :: h) m ∧
      m.state = t ∧ t.current? default = some (.version default 1) ∧
      overrules (.version default 1) (.version default 2) s t := by
  constructor
  · have hmoves : ((outrun (.stat default 1 0) (.stat default 2 0)).bind fun m =>
        (m.step? 2).map fun n => n.state.current? default == none &&
          overrules (.stat default 1 0) (.stat default 2 0) m.state n.state) = some true := by
      decide +kernel
    obtain ⟨m, hm, hmoves⟩ := Option.bind_eq_some_iff.mp hmoves
    obtain ⟨n, hn, htold⟩ := Option.map_eq_some_iff.mp hmoves
    obtain ⟨hcurrent, hoverrules⟩ := Bool.and_eq_true_iff.mp htold
    obtain ⟨h, hrun⟩ := outrun_run hm
    exact ⟨h, m.state, n.state, n, hrun.move 2 hn, rfl, eq_of_beq hcurrent, hoverrules⟩
  · have hmoves : ((outrun (.version default 1) (.version default 2)).bind fun m =>
        ((told (.track (.version default 1)) m).step? 2).map fun n =>
          n.state.current? default == some (.version default 1) &&
            overrules (.version default 1) (.version default 2)
              (told (.track (.version default 1)) m).state n.state) = some true := by
      decide +kernel
    obtain ⟨m, hm, hmoves⟩ := Option.bind_eq_some_iff.mp hmoves
    obtain ⟨n, hn, htold⟩ := Option.map_eq_some_iff.mp hmoves
    obtain ⟨hcurrent, hoverrules⟩ := Bool.and_eq_true_iff.mp htold
    obtain ⟨h, hrun⟩ := outrun_run hm
    exact ⟨_, _, n.state, n, (hrun.edit (.track (.version default 1))).move 2 hn, rfl,
      eq_of_beq hcurrent, hoverrules⟩

/-- What the later flight has found is held. -/
theorem CallRun.keepsOrder_outrun : ∃ h, ∃ m : Machine AnalysisStore,
    CallRun ⟨id, fun s _ => s⟩ [1, 0] h m ∧
      (∃ g, h.Sublist (g.map (·.store)) ∧ KeepsOrder g m.state) ∧
      (m.state.latest? default).map (·.fingerprint) = some (.stat default 2 0) := by
  have hmoves : (outrun (.stat default 1 0) (.stat default 2 0)).map (fun m =>
      (m.state.latest? default).map (·.fingerprint)) = some (some (.stat default 2 0)) := by
    decide +kernel
  obtain ⟨m, hm, hlatest⟩ := Option.map_eq_some_iff.mp hmoves
  obtain ⟨h, hrun⟩ := outrun_run hm
  exact ⟨_, m, hrun, hrun.keepsOrder ⟨fun _ _ => rfl, fun _ => rfl, fun _ _ _ => rfl⟩, hlatest⟩

end Late
end LanguageServer.AnalysisStore
