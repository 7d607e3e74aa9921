import LanguageServer.Proofs.Flight.Ledger
import LanguageServer.Proofs.Server.Roaming

/-! A walk through the import graph that is made on its own, up to its end and beyond. One task at a
time has the walk before it, first the one that was called and then the flight; it alone may keep what
the walk finds, and it does so in the same move in which the flight lands. -/
namespace LanguageServer

/-- A flight whose outcome is a failure now, which it was not before. -/
def FlightTable.Fails {κ ν : Type} (t t' : FlightTable κ ν) : Prop :=
  ∃ id f, t'.outcome? id = some (.error f) ∧ t.outcome? id ≠ some (.error f)

/-- A landing without a failure is no failure. -/
theorem FlightTable.Fails.of_land {κ ν : Type} [BEq κ] {t t' : FlightTable κ ν} {key : κ}
    {id : FlightId} {v : ν} (h : t.Fails (t'.land key id (.ok v))) : t.Fails t' := by
  obtain ⟨i, f, hnow, hbefore⟩ := h
  rw [outcome?_land] at hnow
  split at hnow
  · cases hnow
  · exact ⟨i, f, hnow, hbefore⟩

namespace Server.Outing

/-- A walk has failed that had not failed before. -/
def Fails (s s' : Server) : Prop :=
  s.graph.waterfallFlights.Fails s'.graph.waterfallFlights ∨
    s.graph.cycleFlights.Fails s'.graph.cycleFlights

/-- The part that a task plays: it has the walk before it, or not. -/
inductive Part where
  | unborn
  | gone
  | guest
  | walker

/-- What is written up to now; a walk that is before somebody has written nothing but imports. -/
structure Sound (root : Url) (s₀ : Server) (w : World Instant Part) (s : Server) : Prop where
  written : WritesUnder {root} {root} (s.time w.told) s₀ s
  failed : Fails s₀ s → WritesUnder {root} ∅ (s.time w.told) s₀ s
  pending : ∀ i, w.role i = .walker → ¬ Fails s₀ s ∧ WritesUnder {root} ∅ (s.time w.told) s₀ s
  single : ∀ i j, w.role i = .walker → w.role j = .walker → i = j

def pact (root : Url) (s₀ : Server) : Pact Instant Part Server where
  holds := Sound root s₀
  shows now t := t = now
  own now now' := now' = now
  others _ _ := True
  unborn := .unborn
  gone := .gone
  isLoose _ := false

variable {root : Url} {s₀ s s' : Server} {w : World Instant Part} {me i : TaskId} {q : Questions}

theorem pact_isFair : (pact root s₀).IsFair where
  own_refl _ := rfl
  own_trans _ _ _ hf hg := hg.trans hf
  others_trans _ _ _ _ _ := trivial
  others_of_own _ _ _ _ _ := trivial
  shows_own _ _ _ hg ht := ht.trans hg.symm
  gone_ne h := by cases h
  unborn_fast := rfl

theorem isLive_guest : (pact root s₀).IsLive .guest := ⟨by simp [pact], by simp [pact]⟩

theorem isLive_walker : (pact root s₀).IsLive .walker := ⟨by simp [pact], by simp [pact]⟩

theorem not_fails_self (s : Server) : ¬ Fails s s := by
  rintro (⟨id, f, hnow, hbefore⟩ | ⟨id, f, hnow, hbefore⟩)
  · exact hbefore hnow
  · exact hbefore hnow

namespace Sound

/-- Nothing is written at first. -/
theorem start (hw : ∀ i j, w.role i = .walker → w.role j = .walker → i = j) :
    Sound root s₀ w s₀ where
  written := .refl _ _ _ _
  failed _ := .refl _ _ _ _
  pending _ _ := ⟨not_fails_self s₀, .refl _ _ _ _⟩
  single := hw

/-- Nothing is kept but imports of the root, no walk fails, and time may go on. -/
theorem step (hs : Sound root s₀ w s) {now : Instant} (hnow : s.time w.told ≤ s'.time now)
    (h : WritesUnder {root} ∅ (s'.time now) s s') (hfails : Fails s₀ s' → Fails s₀ s) :
    Sound root s₀ (w.tell now) s' where
  written := (hs.written.later hnow).trans (h.mono subset_rfl (Set.empty_subset {root}))
  failed hf := ((hs.failed (hfails hf)).later hnow).trans h
  pending i hi := by
    obtain ⟨hquiet, hkept⟩ := hs.pending i hi
    exact ⟨fun hf => hquiet (hfails hf), (hkept.later hnow).trans h⟩
  single := hs.single

theorem elapse (hs : Sound root s₀ w s) (h : Untouched s s') {now : Instant}
    (hnow : s.time w.told ≤ s'.time now) : Sound root s₀ (w.tell now) s' :=
  hs.step hnow (h.writesUnder _) fun hf => by
    simpa only [Fails, h.waterfallFlights, h.cycleFlights] using hf

theorem roams (hs : Sound root s₀ w s) (h : Roams root w.told s s') : Sound root s₀ w s' := by
  have htime : s'.time w.told = s.time w.told := congrArg (·.getD w.told) h.clock
  refine hs.step (htime ▸ Nat.le_refl _) (htime ▸ h.toWritesUnder) fun hf => ?_
  simpa only [Fails, FlightTable.Fails, FlightTable.outcome?, h.waterfallOutcomes,
    h.cycleOutcomes] using hf

/-- A task that does not have the walk before it matters to nobody. -/
theorem cast (hs : Sound root s₀ w s) (i : TaskId) {r : Part} (hr : r ≠ .walker) :
    Sound root s₀ (w.cast i r) s := by
  have hrole {j : TaskId} (hj : (w.cast i r).role j = .walker) : w.role j = .walker := by
    rw [World.role_cast] at hj
    split at hj
    · exact absurd hj hr
    · exact hj
  exact ⟨hs.written, hs.failed, fun j hj => hs.pending j (hrole hj),
    fun j k hj hk => hs.single j k (hrole hj) (hrole hk)⟩

theorem leave (hs : Sound root s₀ w s) (i : TaskId) : Sound root s₀ (w.cast i .gone) s :=
  hs.cast i (by simp)

/-- The walk is handed on. -/
theorem pass (hs : Sound root s₀ w s) (hme : w.role me = .walker) (i : TaskId) :
    Sound root s₀ ((w.cast i .walker).cast me .guest) s := by
  have hrole {j : TaskId} (hj : ((w.cast i .walker).cast me .guest).role j = .walker) : j = i := by
    by_contra hne
    rw [World.role_cast, World.role_cast, if_neg hne] at hj
    split at hj
    · cases hj
    · next hjme => exact hjme (hs.single j me hj hme)
  exact ⟨hs.written, hs.failed, fun _ _ => hs.pending me hme,
    fun j k hj hk => (hrole hj).trans (hrole hk).symm⟩

end Sound

theorem pact_hosts : (pact root s₀).HostsAt .guest (Roams root) where
  fair := pact_isFair
  live := isLive_guest
  keeps _ _ _ _ ht h hs := Sound.roams hs (ht ▸ h)
  releases _ _ _ h hs := Sound.roams hs (h _)
  arrives _ _ i _ hs := Sound.cast hs i (by simp)
  leaves _ _ i _ hs := Sound.leave hs i

/-- A walk is over and its flight is about to land. Nothing was kept of it if it has failed. -/
structure Arrives {ν : Type} (root : Url) (s₀ : Server) (me : TaskId) (o : Except Failure ν)
    (w : World Instant Part) (s : Server) : Prop where
  written : WritesUnder {root} {root} (s.time w.told) s₀ s
  failed : ∀ f, o = .error f → WritesUnder {root} ∅ (s.time w.told) s₀ s
  quiet : ¬ Fails s₀ s
  walker : ∀ i, w.role i = .walker → i = me

theorem Sound.arrives {ν : Type} (hs : Sound root s₀ w s) (hme : w.role me = .walker)
    (o : Except Failure ν) : Arrives root s₀ me o w s where
  written := hs.written
  failed _ _ := (hs.pending me hme).2
  quiet := (hs.pending me hme).1
  walker i hi := hs.single i me hi hme

/-- What a walk has found is kept under the document that it began with. -/
theorem Arrives.store {ν : Type} {v : ν} (h : Arrives root s₀ me (.ok v) w s)
    (hstore : WritesUnder {root} {root} (s.time w.told) s s')
    (hwaterfalls : s'.graph.waterfallFlights = s.graph.waterfallFlights)
    (hcycles : s'.graph.cycleFlights = s.graph.cycleFlights) (hclock : s'.around.clock = s.around.clock) :
    Arrives root s₀ me (.ok v) w s' where
  written := by
    have htime : s'.time w.told = s.time w.told := congrArg (·.getD w.told) hclock
    exact htime ▸ h.written.trans hstore
  failed _ hf := by cases hf
  quiet := by simpa only [Fails, hwaterfalls, hcycles] using h.quiet
  walker := h.walker

section Flying

variable {κ ν : Type} {l : Lens Server (FlightTable κ ν)}

/-- The table of the one or the other kind of walks. -/
structure IsWalks (l : Lens Server (FlightTable κ ν)) : Prop where
  aside : ∀ (imported walked : Set Url) (t : Instant) (s : Server) (p : FlightTable κ ν),
    WritesUnder imported walked t s (l.set p s)
  clock : ∀ (s : Server) (p : FlightTable κ ν), (l.set p s).around.clock = s.around.clock
  failed : ∀ s₀ s, (l.get s₀).Fails (l.get s) → Fails s₀ s
  of_set : ∀ s₀ s p, Fails s₀ (l.set p s) → (l.get s₀).Fails p ∨ Fails s₀ s

theorem isWalks_waterfallFlights : IsWalks waterfallFlights where
  aside _ _ t _ _ := ⟨rfl, .refl _ t _, .refl _ t _, .refl _ t _⟩
  clock _ _ := rfl
  failed _ _ := .inl
  of_set _ _ _ := Or.imp_right .inr

theorem isWalks_cycleFlights : IsWalks cycleFlights where
  aside _ _ t _ _ := ⟨rfl, .refl _ t _, .refl _ t _, .refl _ t _⟩
  clock _ _ := rfl
  failed _ _ := .inr
  of_set _ _ _ h := h.symm.imp_right .inl

/-- A task that waits for a flight has nothing else to do. -/
theorem honors_await (ticket : Ticket ν) {waited : Bool} (hs : Sound root s₀ w s)
    (hme : (pact root s₀).IsLive (w.role me)) :
    (FlightTable.await l ticket).Honors (pact root s₀) me waited
      (fun _ => (pact root s₀).Rests me) w s :=
  (keepsAt_of_bystands (behaves_await .refl l ticket)).honors pact_hosts hs hme
    fun _ v _ _ hs => ⟨v.told, rfl, Sound.leave hs me⟩

variable (hl : IsWalks l)
include hl

theorem IsWalks.time_set (s : Server) (p : FlightTable κ ν) (now : Instant) :
    (l.set p s).time now = s.time now := congrArg (·.getD now) (hl.clock s p)

/-- Flights may begin and land without a failure. -/
theorem Sound.set (hs : Sound root s₀ w s) {p : FlightTable κ ν}
    (hp : (l.get s₀).Fails p → (l.get s₀).Fails (l.get s)) : Sound root s₀ w (l.set p s) := by
  have htime := hl.time_set s p w.told
  refine hs.step (htime ▸ Nat.le_refl _) (hl.aside _ _ _ s p) fun hf => ?_
  exact (hl.of_set s₀ s p hf).elim (fun hf => hl.failed s₀ s (hp hf)) fun hf => hf

variable [BEq κ] {key : κ} {id : FlightId}

theorem Arrives.land {o : Except Failure ν} (h : Arrives root s₀ me o w s) :
    Sound root s₀ (w.cast me .gone) (l.modify (·.land key id o) s) := by
  have htime := hl.time_set s ((l.get s).land key id o) w.told
  have hnobody {i : TaskId} (hi : (w.cast me .gone).role i = .walker) : False := by
    rw [World.role_cast] at hi
    split at hi
    · cases hi
    · next hne => exact hne (h.walker i hi)
  refine ⟨?_, fun hf => ?_, fun i hi => (hnobody hi).elim, fun i _ hi => (hnobody hi).elim⟩
  · exact htime ▸ h.written.trans (hl.aside _ _ _ s _)
  · cases o with
    | error f => exact htime ▸ (h.failed f rfl).trans (hl.aside _ _ _ s _)
    | ok v =>
      exact absurd ((hl.of_set s₀ s _ hf).elim (fun hf => hl.failed s₀ s hf.of_land) fun hf => hf) h.quiet

/-- A walk is left to a flight, or the flight that is in the air is waited for. -/
theorem honors_fly {work : Unit → Job (Except Failure ν)}
    (hwork : ∀ i w s, Sound root s₀ w s → w.role i = .walker →
      (work ()).Honors (pact root s₀) i true (Arrives root s₀ i) w s)
    (hs : Sound root s₀ w s) (hme : w.role me = .walker) :
    (FlightTable.join l key (fun _ => none) (fun s => ((), s)) work >>= FlightTable.await l).Honors
      (pact root s₀) me false (fun _ => (pact root s₀).Rests me) w s := by
  rw [Task.honors_then]
  intro now hnow
  cases hrun : (l.get s).running.find? key with
  | some id =>
    simp only [FlightTable.request, hrun]
    exact honors_await _ (hs.set hl fun hf => hf) (hme ▸ isLive_walker)
  | none =>
    simp only [FlightTable.request, hrun]
    have hbegun : Sound root s₀ w (l.set ((l.get s).begun key) s) := hs.set hl fun hf => hf
    refine fun i hi hunborn => ⟨w.told, .walker, rfl, isLive_walker, fun v s' hv hs' => ?_, ?_⟩
    · have hrole : v.role i = .walker := hv.2.trans (World.role_cast_self _ _ _)
      refine Task.Honors.bind ((hwork i v s' hs' hrole).mono fun o u s ho waited => ?_)
      exact Task.honors_modify ⟨u.told, rfl, ho.land hl⟩
    · -- at this wait the walk is the flight's and not the caller's any more
      refine ⟨w.told, .guest, rfl, isLive_guest, rfl, hbegun.pass hme i, ?_⟩
      rintro v s' - hs' _ _ _ - hready
      obtain ⟨_, -, heq⟩ := Option.map_eq_some_iff.mp hready
      cases heq
      exact ⟨v.told, rfl, Sound.leave hs' me⟩

end Flying

/-- On its way a walk stays before the task that has it. -/
theorem honors_roaming {α : Type} {job : Job α} (hjob : job.KeepsAt (Roams root)) {waited : Bool}
    {Q : α → World Instant Part → Server → Prop} (hs : Sound root s₀ w s) (hme : w.role me = .walker)
    (hQ : ∀ a v s, v.role me = .walker → Sound root s₀ v s → Q a v s) :
    job.Honors (pact root s₀) me waited Q w s :=
  hjob.honors pact_hosts hs (hme ▸ isLive_walker) fun a v s hv hs => hQ a v s (hv.2.trans hme) hs

section Calling

variable (hq : q.Bystand)
include hq

theorem honors_waterfallOf (text : String) (depth : Nat) {waited : Bool}
    (hs : Sound root s₀ w s) (hme : w.role me = .walker) :
    (waterfallOf root text depth q).Honors (pact root s₀) me waited
      (fun _ => (pact root s₀).Rests me) w s := by
  refine Task.Honors.bind_of_done (fun _ h => by cases h)
    (honors_roaming (keepsAt_heldWaterfall root root _ depth) hs hme fun held v s hme hs => ?_)
  cases held with
  | some found => exact ⟨v.told, rfl, hs.leave me⟩
  | none =>
    refine honors_fly isWalks_waterfallFlights (fun i w s hs hi => ?_) hs hme
    refine Task.Honors.bind (honors_roaming (keepsAt_walkWaterfall hq root text depth) hs hi
      fun found v s hi hs waited => ?_)
    cases found with
    | error f => exact hs.arrives hi (.error f)
    | ok found =>
      obtain ⟨symbols, reads⟩ := found
      refine fun now _ => (hs.arrives hi (.ok _)).store ?_ rfl rfl rfl
      refine ⟨rfl, .refl _ _ _, .storeIfUnchanged _ _ _ _ ?_ _ _, .refl _ _ _⟩
      exact Set.mem_singleton root

theorem honors_cycleOf (text : String) {waited : Bool} (hs : Sound root s₀ w s)
    (hme : w.role me = .walker) :
    (cycleOf root text q).Honors (pact root s₀) me waited (fun _ => (pact root s₀).Rests me) w s := by
  refine Task.Honors.bind_of_done (fun _ h => by cases h)
    (honors_roaming (keepsAt_heldCycle root root _) hs hme fun held v s hme hs => ?_)
  cases held with
  | some found => exact ⟨v.told, rfl, hs.leave me⟩
  | none =>
    refine honors_fly isWalks_cycleFlights (fun i w s hs hi => ?_) hs hme
    refine Task.Honors.bind (honors_roaming (keepsAt_walkCycle hq root text) hs hi
      fun found v s hi hs waited => ?_)
    cases found with
    | error f => exact hs.arrives hi (.error f)
    | ok found =>
      obtain ⟨verdict, reads⟩ := found
      refine fun now _ => (hs.arrives hi (.ok _)).store ?_ rfl rfl rfl
      exact ⟨rfl, .refl _ _ _, .refl _ _ _, .storeIfUnchanged _ _ _ _ (Set.mem_singleton root) _ _⟩

end Calling

/-- What is asked of a document that takes a walk: the symbols that it sees up to a depth, and whether
its imports lead back to a file on the way. -/
inductive Walk where
  | waterfall (depth : Nat)
  | cycle

def Walk.ask (q : Questions) (root : Url) (text : String) : Walk → Job Unit
  | .waterfall depth => (waterfallOf root text depth q).bind fun _ => .done ()
  | .cycle => (cycleOf root text q).bind fun _ => .done ()

/-- The runs of one call in a server. No other task has to do with what walks have to do with, and
neither has what happens between two moves; time goes on, by whatever clock. -/
inductive Run (q : Questions) (k : Walk) (root : Url) (text : String) (s₀ : Server) :
    Machine Server → Prop
  | start (now : Instant) : Run q k root text s₀ (Machine.spawn ⟨s₀, now, [], 0⟩ (k.ask q root text))
  | beside {m : Machine Server} {t : Job Unit} : Run q k root text s₀ m → t.Behaves Bystands →
    Run q k root text s₀ (m.spawn t)
  | other {m : Machine Server} (s : Server) (now : Instant) : Run q k root text s₀ m →
    Untouched m.state s → m.state.time m.now ≤ s.time now →
    Run q k root text s₀ { m with state := s, now := now }
  | move {m n : Machine Server} (i : TaskId) : Run q k root text s₀ m → m.step? i = some n →
    Run q k root text s₀ n

variable {k : Walk} {text : String} {m : Machine Server}

theorem Walk.honors_ask (hq : q.Bystand) (k : Walk) {waited : Bool} (hs : Sound root s₀ w s)
    (hme : w.role me = .walker) :
    (k.ask q root text).Honors (pact root s₀) me waited (fun _ => (pact root s₀).Rests me) w s := by
  cases k with
  | waterfall depth =>
    exact Task.Honors.bind ((honors_waterfallOf hq text depth hs hme).mono fun _ _ _ h _ => h)
  | cycle => exact Task.Honors.bind ((honors_cycleOf hq text hs hme).mono fun _ _ _ h _ => h)

theorem Run.binds (hq : q.Bystand) (hr : Run q k root text s₀ m) :
    ∃ w, (pact root s₀).Binds w m := by
  induction hr with
  | start now =>
    have hempty : (pact root s₀).Binds ⟨now, fun _ => .unborn⟩ ⟨s₀, now, [], 0⟩ :=
      { holds := Sound.start fun i j hi => by cases hi
        shows := rfl
        ready := fun _ hp => absurd hp List.not_mem_nil
        below := fun _ hp => absurd hp List.not_mem_nil
        distinct := List.nodup_nil
        live := fun i => by simp [Pact.IsLive, pact]
        unborn := fun _ _ => rfl }
    refine ⟨_, hempty.spawn pact_isFair (g := now) trivial rfl isLive_walker ?_ ?_⟩
    · refine Sound.start fun i j hi hj => ?_
      have hcalled {i : TaskId} (hi : (World.cast (World.tell ⟨now, fun _ => .unborn⟩ now) 0
          .walker).role i = Part.walker) : i = 0 := by
        by_contra hne
        rw [World.role_cast_of_ne _ _ hne] at hi
        cases hi
      exact (hcalled hi).trans (hcalled hj).symm
    · exact fun v s hv hs => k.honors_ask hq hs (hv.2.trans (World.role_cast_self _ _ _))
  | beside _ ht ih =>
    obtain ⟨w, hm⟩ := ih
    refine ⟨_, hm.spawn pact_isFair (g := w.told) trivial hm.shows isLive_guest ?_ ?_⟩
    · exact pact_hosts.arrives _ _ _ (hm.unborn _ (Nat.le_refl _)) hm.holds
    · exact pact_hosts.ready (keepsAt_of_bystands ht) (World.role_cast_self _ _ _)
  | @other m s now _ hs hnow ih =>
    obtain ⟨w, hm⟩ := ih
    have htold : m.now = w.told := hm.shows
    exact ⟨_, hm.others pact_isFair trivial (Sound.elapse hm.holds hs (htold ▸ hnow)) rfl⟩
  | move i _ hn ih =>
    obtain ⟨w, hm⟩ := ih
    obtain ⟨v, -, hn⟩ := hm.step pact_isFair trivial hn
    exact ⟨v, hn⟩

/-- A walk keeps nothing but under the document that it begins with, whatever becomes of it: all other
entries of the graph caches are as they were, or have expired and are gone, and analyses are as they
were. A walk that fails keeps no result at all. -/
theorem Run.keepsToRoot (hq : q.Bystand) (hr : Run q k root text s₀ m) :
    WritesUnder {root} {root} (m.state.time m.now) s₀ m.state ∧
      (Fails s₀ m.state → WritesUnder {root} ∅ (m.state.time m.now) s₀ m.state) := by
  obtain ⟨w, hm⟩ := hr.binds hq
  have hnow : m.now = w.told := hm.shows
  exact hnow ▸ ⟨hm.holds.written, hm.holds.failed⟩

section Failing

def document : Url := ⟨"file", some "", "/a.pike", none, none⟩

/-- What `a.pike` sees has been known since the beginning, and there is no process to ask. -/
def stale : Server :=
  let s : Server := .new ⟨.empty, [], .scripted none, [], 0, none⟩ {}
  let hash := Hash.ofText ""
  { s with graph := { s.graph with
      waterfalls := s.graph.waterfalls.insert ⟨0⟩ (document, 1) ⟨⟨hash, 1, []⟩, hash, [document]⟩ } }

/-- A time at which that counts no more. -/
def late : Instant := ⟨stale.graph.waterfalls.lifetime.nanos⟩

theorem run_of_foldlM {ids : List TaskId} {n : Machine Server} (hr : Run q k root text s₀ m)
    (hn : ids.foldlM Machine.step? m = some n) : Run q k root text s₀ n := by
  induction ids generalizing m with
  | nil => exact Option.some.inj hn ▸ hr
  | cons i ids ih =>
    obtain ⟨m', hm', hn⟩ := Option.bind_eq_some_iff.mp hn
    exact ih (hr.move i hm') hn

/-- The walk fails at its first question. What was known is dropped, and nothing is kept. -/
theorem Run.keepsToRoot_stale : ∃ m, Run process (.waterfall 1) document "" stale m ∧ m.tasks = [] ∧
    m.state.graph.waterfalls.entries.find? (document, 1) = none ∧ Fails stale m.state ∧
    WritesUnder {document} ∅ (m.state.time m.now) stale m.state := by
  have hmoves : (([0, 1, 1, 2, 1, 0] : List TaskId).foldlM Machine.step?
      (Machine.spawn ⟨stale, late, [], 0⟩ (Walk.ask process document "" (.waterfall 1)))).map (fun m =>
        m.tasks.isEmpty && (m.state.graph.waterfalls.entries.find? (document, 1)).isNone &&
          (m.state.graph.waterfallFlights.outcome? 1).any (!·.isOk)) = some true := by decide +kernel
  obtain ⟨m, hm, hend⟩ := Option.map_eq_some_iff.mp hmoves
  rw [Bool.and_eq_true, Bool.and_eq_true, List.isEmpty_iff, Option.isNone_iff_eq_none] at hend
  obtain ⟨⟨htasks, hdropped⟩, houtcome⟩ := hend
  have hrun := run_of_foldlM (.start late) hm
  obtain ⟨o, ho, herror⟩ := (Option.any_eq_true _ _).mp houtcome
  have hfails : Fails stale m.state := by
    cases o with
    | ok _ => cases herror
    | error f => exact .inl ⟨1, f, ho, fun h => Option.some_ne_none _ h.symm⟩
  exact ⟨m, hrun, htasks, hdropped, hfails, (hrun.keepsToRoot bystand_process).2 hfails⟩

end Failing

end Server.Outing
end LanguageServer
