import LanguageServer.Proofs.Flight.Ledger
import LanguageServer.Proofs.Task.Guests

/-! The runs of tasks that share flights, whole or in slices, in any order. What becomes of the table
is told by a chronicle, and every flight that runs is flown by a task of its own. -/
namespace LanguageServer.FlightTable

variable {σ κ ν : Type} [BEq κ]

/-- The state changes in nothing that the table is read from. -/
def SameTable (l : Lens σ (FlightTable κ ν)) (s s' : σ) : Prop := l.get s' = l.get s

/-- Tasks that change a table only by asking it for flights. What they do with a handle is up to
them, and what is done on a flight may ask for flights again. -/
inductive Shares (l : Lens σ (FlightTable κ ν)) : {α : Type} → Task σ α → Prop
  | keeps {α : Type} {t : Task σ α} : t.Keeps (SameTable l) → t.DropsNone → Shares l t
  | join {β : Type} (key : κ) (settled : σ → Option ν) {begin : σ → β × σ}
    {work : β → Task σ (Except Failure ν)} : (∀ s, SameTable l s (begin s).2) →
    (∀ b, Shares l (work b)) → Shares l (join l key settled begin work)
  | bind {α β : Type} {t : Task σ α} {g : α → Task σ β} :
    Shares l t → (∀ a, Shares l (g a)) → Shares l (t.bind g)
  | fork {t : Task σ Unit} : Shares l t → Shares l (Task.fork t)

/-- The runs of tasks that share a table, with the callers and the tables that there have been. The
callers join and are dropped at any time, some of them cut into slices; whatever else there is to the
state changes, and time passes, between any two moves. -/
inductive Run (l : Lens σ (FlightTable κ ν)) :
    List TaskId → List (FlightTable κ ν) → Machine σ → Prop
  | start (s : σ) : l.get s = .empty → Run l [] [.empty] (Machine.start s)
  | call {cs : List TaskId} {h : List (FlightTable κ ν)} {m : Machine σ} {t : Task σ Unit} :
    Run l cs h m → Shares l t → Run l (m.next :: cs) h (m.spawn t)
  | slice {cs : List TaskId} {h : List (FlightTable κ ν)} {m : Machine σ} {t : Task σ Unit} :
    Run l cs h m → Shares l t → Run l (m.next :: cs) h (m.spawn t.sliced)
  | drop {cs : List TaskId} {h : List (FlightTable κ ν)} {m : Machine σ} (i : TaskId) :
    Run l cs h m → i ∈ cs → Run l cs h (m.spawn (Task.abort i))
  | other {cs : List TaskId} {h : List (FlightTable κ ν)} {m : Machine σ} (s : σ) (now : Instant) :
    Run l cs h m → SameTable l m.state s → Run l cs h { m with state := s, now := now }
  | move {cs : List TaskId} {h : List (FlightTable κ ν)} {m n : Machine σ} (i : TaskId) :
    Run l cs h m → m.step? i = some n → Run l cs (l.get n.state :: h) n

/-- The part that a task plays: it asks for flights, or it flies one. -/
inductive Part (κ : Type) where
  | unborn
  | gone
  | guest
  | flight (key : κ) (id : FlightId)

def Part.isGuest : Part κ → Bool
  | .guest => true
  | _ => false

/-- The flight that a task flies. -/
def Part.flown? : Part κ → Option (κ × FlightId)
  | .flight key id => some (key, id)
  | _ => none

omit [BEq κ] in
theorem Part.flown?_eq_some_iff {r : Part κ} {p : κ × FlightId} :
    r.flown? = some p ↔ r = .flight p.1 p.2 := by
  cases r <;> simp [flown?, Prod.ext_iff]

structure Log (κ ν : Type) where
  tables : List (FlightTable κ ν)
  callers : List TaskId

def Log.note (g : Log κ ν) (t : FlightTable κ ν) : Log κ ν := { g with tables := t :: g.tables }

/-- The log tells what has led to the table, and every flight that runs is flown by one task. -/
structure Tells (l : Lens σ (FlightTable κ ν)) (w : World (Log κ ν) (Part κ)) (s : σ) : Prop where
  chronicle : Chronicle w.told.tables
  current : ∃ older, w.told.tables = l.get s :: older
  flights : ∀ key id, (key, id) ∈ (l.get s).running.pairs ↔ ∃ i, w.role i = .flight key id
  single : ∀ i j key id, w.role i = .flight key id → w.role j = .flight key id → i = j
  callers : ∀ i ∈ w.told.callers, w.role i = .guest ∨ w.role i = .gone

def pact (l : Lens σ (FlightTable κ ν)) : Pact (Log κ ν) (Part κ) σ where
  holds := Tells l
  shows _ _ := True
  own g g' := g.tables <:+ g'.tables ∧ g'.callers = g.callers
  others g g' := g.tables <:+ g'.tables ∧ g.callers <:+ g'.callers
  unborn := .unborn
  gone := .gone
  isLoose := Part.isGuest

variable {l : Lens σ (FlightTable κ ν)} {w : World (Log κ ν) (Part κ)} {s s' : σ} {i me : TaskId}

theorem pact_isCalm : (pact l).IsCalm where
  own_refl _ := ⟨List.suffix_rfl, rfl⟩
  own_trans _ _ _ hf hg := ⟨hf.1.trans hg.1, hg.2.trans hf.2⟩
  others_trans _ _ _ hf hg := ⟨hf.1.trans hg.1, hf.2.trans hg.2⟩
  others_of_own _ _ _ hf hg := ⟨hf.1.trans hg.1, hf.2 ▸ hg.2⟩
  shows_own _ _ _ _ _ := trivial
  gone_ne h := by cases h
  unborn_fast := rfl
  others_refl _ := ⟨List.suffix_rfl, List.suffix_rfl⟩

theorem isLive_flight (key : κ) (id : FlightId) : (pact l).IsLive (.flight key id) :=
  ⟨by simp [pact], by simp [pact]⟩

theorem own_note (g : Log κ ν) (t : FlightTable κ ν) : (pact l).own g (g.note t) :=
  ⟨List.suffix_cons t g.tables, rfl⟩

/-- A caller joins a flight or is given what is settled; else a flight begins, and a task flies it. -/
theorem honors_join {γ ρ β : Type} {c : Pact γ ρ σ} {w : World γ ρ} (hl : l.IsLawful) {key : κ}
    {settled : σ → Option ν} {begin : σ → β × σ} {work : β → Task σ (Except Failure ν)}
    {waited : Bool} {Q : Ticket ν → World γ ρ → σ → Prop}
    (h : c.Turns me waited w s fun v s =>
      (∀ id, (l.get s).running.find? key = some id → Q (.flight id) v s) ∧
      (∀ a, (l.get s).running.find? key = none → settled s = some a → Q (.ready a) v s) ∧
      ((l.get s).running.find? key = none → settled s = none → ∀ i, i ≠ me → v.role i = c.unborn →
        ∃ g r, c.own v.told g ∧ c.IsLive r ∧
          c.Ready i ((v.tell g).cast i r)
            ((work (begin (l.set ((l.get s).begun key) s)).1).bind fun o =>
              Task.modify (l.modify (·.land key (l.get s).next o))).sliced ∧
          Q (.flight (l.get s).next) ((v.tell g).cast i r)
            (begin (l.set ((l.get s).begun key) s)).2)) :
    (join l key settled begin work).sliced.Honors c me waited Q w s := by
  refine Pact.Turns.mono h fun v s ⟨hjoined, hsettled, hstarted⟩ now answer s' _ hnow => ?_
  have hsame : l.set (l.get s) s = s := hl.set_get s
  cases hrun : (l.get s).running.find? key with
  | some id =>
    simp only [request, hrun, hsame] at hnow
    cases hnow
    exact hjoined id hrun
  | none =>
    cases hset : settled s with
    | some a =>
      simp only [request, hrun, hset, hsame] at hnow
      cases hnow
      exact hsettled a hrun hset
    | none =>
      simp only [request, hrun, hset] at hnow
      cases hnow
      exact hstarted hrun hset

namespace Tells

/-- A task that flies nothing takes another part that flies nothing. -/
theorem cast (hs : Tells l w s) {r : Part κ} (hold : ∀ key id, w.role i ≠ .flight key id)
    (hnew : ∀ key id, r ≠ .flight key id)
    (hcaller : i ∈ w.told.callers → r = .guest ∨ r = .gone) : Tells l (w.cast i r) s := by
  have hrole (j : TaskId) (key : κ) (id : FlightId) :
      (w.cast i r).role j = .flight key id ↔ w.role j = .flight key id := by
    rw [World.role_cast]
    split
    · next hj => exact ⟨fun h => absurd h (hnew key id), fun h => absurd (hj ▸ h) (hold key id)⟩
    · rfl
  refine ⟨hs.chronicle, hs.current, ?_, ?_, fun j hj => ?_⟩
  · simpa only [hrole] using hs.flights
  · simpa only [hrole] using hs.single
  · rw [World.role_cast]
    split
    · next hji => exact hcaller (hji ▸ hj)
    · exact hs.callers j hj

/-- A moment at which nothing becomes of the table is told as well. -/
theorem rest (hs : Tells l w s) (hsame : l.get s' = l.get s) :
    Tells l (w.tell (w.told.note (l.get s'))) s' := by
  obtain ⟨older, hcurrent⟩ := hs.current
  refine ⟨?_, ⟨w.told.tables, rfl⟩, hsame ▸ hs.flights, hs.single, hs.callers⟩
  have hc := hs.chronicle
  simp only [World.told_tell, Log.note, hcurrent, hsame] at hc ⊢
  exact hc.turn .rest

variable [LawfulBEq κ] (hl : l.IsLawful) {key : κ} {id : FlightId}
include hl

theorem begin (hs : Tells l w s) (hvacant : (l.get s).running.find? key = none)
    (hi : w.role i = .unborn) : Tells l
      ((w.tell (w.told.note ((l.get s).begun key))).cast i (.flight key (l.get s).next))
      (l.set ((l.get s).begun key) s) := by
  obtain ⟨older, hcurrent⟩ := hs.current
  have hc : Chronicle (l.get s :: older) := hcurrent ▸ hs.chronicle
  have hrole (j : TaskId) (k : κ) (n : FlightId) :
      ((w.tell (w.told.note ((l.get s).begun key))).cast i (.flight key (l.get s).next)).role j =
        .flight k n ↔ w.role j = .flight k n ∨ j = i ∧ k = key ∧ n = (l.get s).next := by
    rw [World.role_cast]
    split
    · next hj =>
      subst hj
      simp [hi, eq_comm]
    · next hj => simp [hj]
  refine ⟨?_, ⟨w.told.tables, ?_⟩, fun k n => ?_, fun j j' k n hj hj' => ?_, fun j hj => ?_⟩
  · simpa only [World.told_cast, World.told_tell, Log.note, hcurrent] using hc.turn (.begin key hvacant)
  · simp only [World.told_cast, World.told_tell, Log.note, hl.get_set]
  · rw [hl.get_set, begun_pairs hvacant, List.mem_append, hs.flights]
    simp only [hrole, exists_or, List.mem_singleton, Prod.mk.injEq, exists_eq_left]
  · -- the number of the new flight is new
    have hfresh {j : TaskId} (hj : w.role j = .flight key (l.get s).next) : False :=
      Nat.lt_irrefl _ (hc.isOrderly.waiting _ ((hs.flights _ _).mpr ⟨j, hj⟩)).1
    rw [hrole] at hj hj'
    obtain hj | ⟨rfl, rfl, rfl⟩ := hj
    · obtain hj' | ⟨rfl, rfl, rfl⟩ := hj'
      · exact hs.single j j' k n hj hj'
      · exact (hfresh hj).elim
    · obtain hj' | ⟨rfl, -⟩ := hj'
      · exact (hfresh hj').elim
      · rfl
  · have hne : j ≠ i := by
      rintro rfl
      obtain hj | hj := hs.callers j hj <;> cases hi.symm.trans hj
    rw [World.role_cast_of_ne _ _ hne]
    exact hs.callers j hj

theorem land (hs : Tells l w s) (hme : w.role me = .flight key id) (o : Except Failure ν) :
    Tells l ((w.tell (w.told.note ((l.get s).land key id o))).cast me .gone)
      (l.set ((l.get s).land key id o) s) := by
  obtain ⟨older, hcurrent⟩ := hs.current
  have hc : Chronicle (l.get s :: older) := hcurrent ▸ hs.chronicle
  have hmem : (key, id) ∈ (l.get s).running.pairs := (hs.flights key id).mpr ⟨me, hme⟩
  have hkey : (l.get s).running.find? key = some id :=
    (Table.find?_eq_some_iff hc.isOrderly.distinct).mpr hmem
  have hrole (j : TaskId) (k : κ) (n : FlightId) :
      ((w.tell (w.told.note ((l.get s).land key id o))).cast me .gone).role j = .flight k n ↔
        w.role j = .flight k n ∧ j ≠ me := by
    rw [World.role_cast]
    split
    · next hj => simp [hj]
    · next hj => simp [hj]
  refine ⟨?_, ⟨w.told.tables, ?_⟩, fun k n => ?_, fun j j' k n hj hj' => ?_, fun j hj => ?_⟩
  · simpa only [World.told_cast, World.told_tell, Log.note, hcurrent] using hc.turn (.land key id o hkey)
  · simp only [World.told_cast, World.told_tell, Log.note, hl.get_set]
  · rw [hl.get_set, mem_land, hs.flights]
    simp only [hrole]
    constructor
    · rintro ⟨⟨j, hj⟩, hne⟩
      refine ⟨j, hj, ?_⟩
      rintro rfl
      obtain ⟨rfl, rfl⟩ := Part.flight.inj (hme.symm.trans hj)
      simp at hne
    · rintro ⟨j, hj, hne⟩
      refine ⟨⟨j, hj⟩, Bool.eq_false_iff.mpr fun heq => hne ?_⟩
      obtain ⟨hk, hn⟩ := Bool.and_eq_true_iff.mp heq
      -- one task alone flies the flight that lands
      exact hs.single j me key id (eq_of_beq hk ▸ eq_of_beq hn ▸ hj) hme
  · exact hs.single j j' k n ((hrole j k n).mp hj).1 ((hrole j' k n).mp hj').1
  · rw [World.role_cast]
    split
    · exact .inr rfl
    · exact hs.callers j hj

end Tells

/-- A guest leaves the table as it is. -/
theorem pact_hosts : (pact l).Hosts .guest (SameTable l) where
  fair := pact_isCalm.toIsFair
  live := ⟨by simp [pact], by simp [pact]⟩
  keeps w s s' hsame hs := by
    have hsame : l.get s' = l.get s := hsame
    exact ⟨hs.chronicle, hsame ▸ hs.current, hsame ▸ hs.flights, hs.single, hs.callers⟩
  arrives w s i hi hs := by
    have hi : w.role i = .unborn := hi
    exact Tells.cast hs (by simp [hi]) (by simp) fun _ => .inl rfl
  leaves w s i hi hs := Tells.cast hs (by simp [hi]) (by simp [pact]) fun _ => .inr rfl

section Shares

variable [LawfulBEq κ] (hl : l.IsLawful)
include hl

/-- A flight that has begun keeps to the pact until it has landed. -/
theorem honors_landing {key : κ} {id : FlightId} {o : Except Failure ν} {waited : Bool}
    (hs : Tells l w s) (hme : w.role me = .flight key id) :
    (Task.modify (l.modify (·.land key id o))).sliced.Honors (pact l) me waited
      (fun _ => (pact l).Rests me) w s := by
  refine Pact.Turns.of_since pact_isCalm.toIsFair waited hs (hme ▸ isLive_flight _ _) ?_
  rintro v s hv hs now _ s' - hlands
  cases hlands
  exact ⟨_, own_note v.told _, hs.land hl (hv.2.trans hme) o⟩

/-- A task that asks for flights keeps to the pact. -/
theorem Shares.honors {α : Type} {t : Task σ α} (ht : Shares l t) {waited : Bool}
    (hs : Tells l w s) (hme : (pact l).IsLive (w.role me))
    {Q : α → World (Log κ ν) (Part κ) → σ → Prop}
    (hQ : ∀ a v s, (pact l).Since me w v → Tells l v s → Q a v s) :
    t.sliced.Honors (pact l) me waited Q w s := by
  induction ht generalizing me w s waited with
  | keeps ht hd => exact ht.sliced.honors pact_hosts hd.sliced hs hme hQ
  | @join β key settled begin work hbegin _ ih =>
    refine honors_join hl (.of_since pact_isCalm.toIsFair waited hs hme fun v s hv hs =>
      ⟨fun _ _ => hQ _ v s hv hs, fun _ _ _ => hQ _ v s hv hs, fun hrun _ i hi hunborn => ?_⟩)
    have hbegun := hs.begin hl hrun hunborn
    refine ⟨_, .flight key (l.get s).next, own_note v.told ((l.get s).begun key), isLive_flight _ _,
      fun u s' hu hs' => ?_, hQ _ _ _ ?_ (pact_hosts.keeps _ _ _ (hbegin _) hbegun)⟩
    · have hrole : u.role i = .flight key (l.get s).next := hu.2.trans (World.role_cast_self _ _ _)
      rw [Task.sliced_bind]
      refine Task.Honors.bind (ih _ hs' (hrole ▸ isLive_flight _ _) fun o u' s' hu' hs' waited => ?_)
      exact honors_landing hl hs' (hu'.2.trans hrole)
    · have hnoted : (pact l).Since me v
          ((v.tell (v.told.note ((l.get s).begun key))).cast i (.flight key (l.get s).next)) :=
        ⟨.inr ⟨List.suffix_cons _ _, List.suffix_rfl⟩, World.role_cast_of_ne _ _ hi.symm⟩
      exact hnoted.trans pact_isCalm.toIsFair hv
  | bind _ _ iht ihg =>
    rw [Task.sliced_bind]
    refine Task.Honors.bind (iht hs hme fun a v s hv hs waited => ?_)
    exact ihg a hs (hv.2 ▸ hme) fun b u s hu => hQ b u s (hu.trans pact_isCalm.toIsFair hv)
  | fork _ ih =>
    refine pact_hosts.honors_fork (fun i v hv => pact_hosts.ready hv fun u s hu hs => ?_) hs
      fun i v hv hs => hQ i v _ hv hs
    exact ih hs (hu ▸ pact_hosts.live) fun _ u' s hu' hs => ⟨hu', hs⟩

/-- Those who ask for flights may join as guests. -/
theorem Shares.ready {t : Task σ Unit} (ht : Shares l t) (hi : w.role i = .guest) :
    (pact l).Ready i w t.sliced :=
  pact_hosts.ready hi fun _ _ hv hs =>
    ht.honors hl hs (hv ▸ pact_hosts.live) fun _ _ _ hu hs => ⟨hu, hs⟩

end Shares

variable {cs : List TaskId} {h : List (FlightTable κ ν)} {m : Machine σ}

/-- A caller joins as a guest. -/
theorem binds_called {t : Task σ Unit} (hm : (pact l).Binds w m)
    (ht : ∀ v, v.role m.next = .guest → (pact l).Ready m.next v t) :
    (pact l).Binds ((w.tell { w.told with callers := m.next :: w.told.callers }).cast m.next .guest)
      (m.spawn t) := by
  have hunborn : w.role m.next = .unborn := hm.unborn _ (Nat.le_refl _)
  have hnext : (pact l).others w.told { w.told with callers := m.next :: w.told.callers } :=
    ⟨List.suffix_rfl, List.suffix_cons _ _⟩
  refine hm.spawn pact_isCalm.toIsFair hnext trivial pact_hosts.live ?_
    (ht _ (World.role_cast_self _ _ _))
  have hs := pact_hosts.arrives w _ _ hunborn hm.holds
  refine ⟨hs.chronicle, hs.current, hs.flights, hs.single, fun i hi => ?_⟩
  obtain rfl | hi := List.mem_cons.mp hi
  · exact .inl (World.role_cast_self _ _ _)
  · exact hs.callers i hi

/-- All that happens to the table in a run is told, in the order in which it happens. -/
theorem Run.binds [LawfulBEq κ] (hl : l.IsLawful) (hr : Run l cs h m) :
    ∃ w, (pact l).Binds w m ∧ h.Sublist w.told.tables ∧ w.told.callers = cs := by
  have hc : (pact l).IsFair := pact_isCalm.toIsFair
  induction hr with
  | start s hs =>
    refine ⟨⟨⟨[.empty], []⟩, fun _ => .unborn⟩, ⟨⟨.start, ⟨[], ?_⟩, ?_, ?_, ?_⟩, trivial, ?_, ?_,
      List.nodup_nil, ?_, fun _ _ => rfl⟩, List.Sublist.refl _, rfl⟩
    · simp [Machine.start, hs]
    · simp [Machine.start, hs, empty, Table.empty]
    · simp
    · simp
    · simp [Machine.start]
    · simp [Machine.start]
    · simp [Machine.start, Pact.IsLive, pact]
  | call _ ht ih =>
    obtain ⟨w, hm, hh, rfl⟩ := ih
    exact ⟨_, binds_called hm fun v hv => (ht.ready hl hv).of_sliced pact_isCalm, hh, rfl⟩
  | slice _ ht ih =>
    obtain ⟨w, hm, hh, rfl⟩ := ih
    exact ⟨_, binds_called hm fun v hv => ht.ready hl hv, hh, rfl⟩
  | @drop cs h m i _ hi ih =>
    obtain ⟨w, hm, hh, rfl⟩ := ih
    exact ⟨_, pact_hosts.binds_abort rfl (pact_isCalm.others_refl _) hm fun v s hv hs =>
      hs.callers i (hv.2.subset hi), hh, rfl⟩
  | other s now _ hs ih =>
    obtain ⟨w, hm, hh, rfl⟩ := ih
    exact ⟨w, hm.others hc (pact_isCalm.others_refl _) (pact_hosts.keeps _ _ _ hs hm.holds) trivial,
      hh, rfl⟩
  | @move cs h m n i _ hn ih =>
    obtain ⟨w, hm, hh, rfl⟩ := ih
    obtain ⟨v, ⟨hv, hcallers⟩, hn⟩ := hm.step hc (pact_isCalm.others_refl _) hn
    have hnext : (pact l).others v.told (v.told.note (l.get n.state)) :=
      ⟨List.suffix_cons _ _, List.suffix_rfl⟩
    refine ⟨_, hn.others hc hnext (hn.holds.rest rfl) trivial, ?_, hcallers⟩
    exact (hh.trans hv.sublist).cons_cons _

end LanguageServer.FlightTable

/-! What callers who share flights can rely on: how one request is answered, and what becomes of the
flights in any run. -/
namespace LanguageServer.FlightTable

variable {σ κ ν : Type} [BEq κ]

/-- How requests are answered. One for a key with a flight joins it; else one that finds a settled
value takes it; else a flight begins, whose work runs as a task of its own and lands with what it
ends with. Whoever waits for a flight is given its outcome. -/
structure AnswersRequests (l : Lens σ (FlightTable κ ν)) : Prop where
  joins : ∀ {β : Type} (key : κ) (settled : σ → Option ν) (begin : σ → β × σ)
    (work : β → Task σ (Except Failure ν)) (now : Instant) (e : Machine.Effects σ) (id : FlightId),
    (l.get e.state).running.find? key = some id →
    Machine.advance now (join l key settled begin work) e = (e, .done (.flight id))
  takes : ∀ {β : Type} (key : κ) (settled : σ → Option ν) (begin : σ → β × σ)
    (work : β → Task σ (Except Failure ν)) (now : Instant) (e : Machine.Effects σ) (a : ν),
    (l.get e.state).running.find? key = none → settled e.state = some a →
    Machine.advance now (join l key settled begin work) e = (e, .done (.ready a))
  begins : ∀ {β : Type} (key : κ) (settled : σ → Option ν) (begin : σ → β × σ)
    (work : β → Task σ (Except Failure ν)) (now : Instant) (e : Machine.Effects σ),
    (l.get e.state).running.find? key = none → settled e.state = none →
    Machine.advance now (join l key settled begin work) e =
      let id := (l.get e.state).next
      let (seen, s) := begin (l.set ((l.get e.state).begun key) e.state)
      ({ e with
          state := s
          next := e.next + 1
          spawned := e.spawned ++ [(e.next, (work seen).bind fun o =>
            Task.modify (l.modify (·.land key id o)))] },
        .done (.flight id))
  waits : ∀ (id : FlightId) (now : Instant) (e : Machine.Effects σ),
    Machine.resume now (await l (.flight id)) e =
      ((l.get e.state).outcome? id).map fun o => (e, .done o)

theorem answersRequests {l : Lens σ (FlightTable κ ν)} (hl : l.IsLawful) : AnswersRequests l where
  joins key settled begin work now e id hrun := by
    simp [join, Machine.advance, request, hrun, hl.set_get]
  takes key settled begin work now e a hrun hset := by
    simp [join, Machine.advance, request, hrun, hset, hl.set_get]
  begins key settled begin work now e hrun hset := by
    simp [join, Machine.advance, request, hrun, hset, begun]
  waits id now e := by
    simp [await, Task.await, Machine.resume, Machine.advance, Function.comp_def]

/-- What becomes of the flights in a run with the callers `cs`, told by all tables that there have
been, newest first. No key has two flights; the keys in the table are those of the flights that have
begun and not ended; a flight that ends leaves all others, and its outcome is there for good. Every
flight that runs is flown by a task of its own, which is there whatever has become of the callers. -/
structure KeepsFlights (l : Lens σ (FlightTable κ ν)) (cs : List TaskId)
    (g : List (FlightTable κ ν)) (m : Machine σ) : Prop where
  chronicle : Chronicle g
  current : ∃ older, g = l.get m.state :: older
  alone : ∀ t ∈ g, t.running.keys.Nodup
  running : ∀ newer t older, g = newer ++ t :: older → ∀ key id,
    t.running.find? key = some id ↔ Begun (t :: older) key id ∧ t.outcome? id = none
  ending : ∀ newer t' t older, g = newer ++ t' :: t :: older → ∀ id o,
    t.outcome? id = none → t'.outcome? id = some o → ∀ key i,
      t'.running.find? key = some i ↔ t.running.find? key = some i ∧ i ≠ id
  lasting : ∀ newer t older, g = newer ++ t :: older → ∀ id o,
    t.outcome? id = some o → (l.get m.state).outcome? id = some o
  flown : ∃ flies : TaskId → Option (κ × FlightId),
    (∀ key id, (l.get m.state).running.find? key = some id ↔ ∃ i, flies i = some (key, id)) ∧
    (∀ i j p, flies i = some p → flies j = some p → i = j) ∧
    ∀ i p, flies i = some p → i ∈ m.tasks.map (·.1) ∧ i ∉ cs

variable [LawfulBEq κ] {t t' : FlightTable κ ν} {g newer older : List (FlightTable κ ν)}

omit [LawfulBEq κ] in
theorem Chronicle.of_append (hc : Chronicle (newer ++ t :: older)) : Chronicle (t :: older) := by
  induction newer with
  | nil => exact hc
  | cons x newer ih =>
    cases newer with
    | nil => exact hc.tail.1
    | cons y newer => exact ih hc.tail.1

/-- A landing takes away the entry of its own flight alone. -/
theorem Turn.ending (ht : t.IsOrderly) (hturn : Turn t t') {id : FlightId} {o : Except Failure ν}
    (hwaiting : t.outcome? id = none) (hended : t'.outcome? id = some o) (key : κ) (i : FlightId) :
    t'.running.find? key = some i ↔ t.running.find? key = some i ∧ i ≠ id := by
  have ht' := ht.turn hturn
  rw [Table.find?_eq_some_iff ht'.distinct, Table.find?_eq_some_iff ht.distinct]
  cases hturn with
  | rest => cases hwaiting.symm.trans hended
  | begin k hk => cases hwaiting.symm.trans hended
  | land k n r hk =>
    rw [outcome?_land, hwaiting] at hended
    split at hended
    · next hid =>
      obtain rfl : n = id := eq_of_beq hid
      rw [mem_land]
      refine and_congr_right fun hp => ⟨?_, fun hne => by simp [hne]⟩
      rintro hne rfl
      cases ht.single _ hp _ (Table.mem_of_find? hk) rfl
      simp at hne
    · cases hended

variable {l : Lens σ (FlightTable κ ν)} {w : World (Log κ ν) (Part κ)} {m : Machine σ}

/-- What a log tells, of a machine in which those who fly are tasks. -/
theorem Tells.keepsFlights (hs : Tells l w m.state)
    (htasks : ∀ i key id, w.role i = .flight key id → i ∈ m.tasks.map (·.1)) :
    KeepsFlights l w.told.callers w.told.tables m where
  chronicle := hs.chronicle
  current := hs.current
  alone t ht := by
    obtain ⟨newer, older, hg⟩ := List.append_of_mem ht
    exact (hg ▸ hs.chronicle).of_append.isOrderly.distinct
  running newer t older hg key id := by
    have hc := (hg ▸ hs.chronicle).of_append
    rw [Table.find?_eq_some_iff hc.isOrderly.distinct]
    exact hc.running_iff
  ending newer t' t older hg id o hwaiting hended := by
    obtain ⟨hc, hturn⟩ := (hg ▸ hs.chronicle).of_append.tail
    exact hturn.ending hc.isOrderly hwaiting hended
  lasting newer t older hg id o ho := by
    obtain ⟨rest, hcurrent⟩ := hs.current
    have hc : Chronicle (l.get m.state :: rest) := hcurrent ▸ hs.chronicle
    have hmem : t ∈ l.get m.state :: rest := by
      rw [← hcurrent, hg]
      exact List.mem_append_right _ List.mem_cons_self
    exact hc.outcome?_of_mem hmem ho
  flown := by
    obtain ⟨rest, hcurrent⟩ := hs.current
    have hc : Chronicle (l.get m.state :: rest) := hcurrent ▸ hs.chronicle
    refine ⟨fun i => (w.role i).flown?, fun key id => ?_, fun i j p hi hj => ?_, fun i p hi => ?_⟩
    · rw [Table.find?_eq_some_iff hc.isOrderly.distinct, hs.flights]
      simp only [Part.flown?_eq_some_iff]
    · exact hs.single i j _ _ (Part.flown?_eq_some_iff.mp hi) (Part.flown?_eq_some_iff.mp hj)
    · have hrole := Part.flown?_eq_some_iff.mp hi
      refine ⟨htasks i _ _ hrole, fun hmem => ?_⟩
      obtain h | h := hs.callers i hmem <;> cases hrole.symm.trans h

/-- The flights of a run are told by a chronicle in which all that was seen of the table occurs. -/
theorem Run.keepsFlights {cs : List TaskId} {h : List (FlightTable κ ν)} (hl : l.IsLawful)
    (hr : Run l cs h m) : ∃ g, h.Sublist g ∧ KeepsFlights l cs g m := by
  obtain ⟨w, hm, hh, rfl⟩ := hr.binds hl
  refine ⟨w.told.tables, hh, hm.holds.keepsFlights fun i key id hi => ?_⟩
  exact (hm.live i).mp (hi ▸ isLive_flight key id)

end LanguageServer.FlightTable
