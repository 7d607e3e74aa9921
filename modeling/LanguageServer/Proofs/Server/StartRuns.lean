import LanguageServer.Proofs.Server.StartQueue

/-! Any number of calls of a start, in any order: what may happen to them, and how those who wait
stand to each other at every moment. -/
namespace LanguageServer.Server.Startups

open Analyzer Machine
open Guard (keep Reading Stays)

/-- Why there is a next moment: a start is called, a call or a reader goes on or is dropped where it
waits, or time passes. -/
inductive Cause where
  | called
  | moved (id : TaskId)
  | dropped (id : TaskId)
  | passed (span : Duration)
  deriving DecidableEq

def Cause.apply : Cause → Machine Server → Option (Machine Server)
  | .called, m => some (m.spawn calling)
  | .moved i, m => m.step? i
  | .dropped i, m => (m.tasks.lookup i).map fun t =>
    { m with tasks := m.tasks.filter (·.1 ≠ i), state := release t m.state }
  | .passed span, m => some { m with now := m.now.after span }

/-- A machine of calls and readers, and what it has just come from; others come from nothing here. -/
structure Moment where
  cause : Option Cause
  machine : Machine Server

/-- What may have happened to a server that has started no process, the last moment first. Others launch
no process, bring none up, and keep nobody from starting one. -/
inductive Run (s₀ : Server) : List Moment → Prop
  | start : s₀.client = .new → Run s₀ [⟨none, Machine.start s₀⟩]
  | next {m : Moment} {older : List Moment} {n : Machine Server} (c : Cause) : Run s₀ (m :: older) →
      c.apply m.machine = some n → Run s₀ (⟨some c, n⟩ :: m :: older)
  | others {m : Moment} {older : List Moment} {s : Server} : Run s₀ (m :: older) →
      Calm m.machine.state s → s.client.isChanging = m.machine.state.client.isChanging →
      Run s₀ (⟨none, { m.machine with state := s }⟩ :: m :: older)

namespace Moment

def phase (m : Moment) : Phase := m.machine.state.client.phase

/-- How many processes there have been. -/
def launches (m : Moment) : Nat := m.machine.state.around.launches

/-- A call waits for its turn. -/
def Waits (m : Moment) (i : TaskId) : Prop := (i, calling) ∈ m.machine.tasks

/-- A call is making a startup. -/
def IsInside (m : Moment) (i : TaskId) : Prop :=
  ∃ x : Place, x.isInside = true ∧ (i, x.task) ∈ m.machine.tasks

/-- A call is told an outcome in its move. -/
def Tells (n : Moment) (i : TaskId) (o : Except Failure Unit) (m : Moment) : Prop :=
  n.cause = some (.moved i) ∧ (i, keep o) ∈ n.machine.tasks ∧ ∀ o', (i, keep o') ∉ m.machine.tasks

end Moment

/-- How often a call has gone on. -/
def movesOf (i : TaskId) (h : List Moment) : Nat := h.countP fun n => n.cause = some (.moved i)

/-- The calls that have launched a process, the last first. -/
def launchers : List Moment → List TaskId
  | n :: m :: older =>
    match n.cause with
    | some (.moved i) =>
      if n.launches = m.launches then launchers (m :: older) else i :: launchers (m :: older)
    | _ => launchers (m :: older)
  | _ => []

/-- The call `i` has launched a process and was told that it is up, and it has been running since. -/
inductive IsUpBy (i : TaskId) : List Moment → Prop
  | came {n m : Moment} {older : List Moment} : n.Tells i (.ok ()) m → i ∈ launchers (m :: older) →
      n.phase = .running → IsUpBy i (n :: m :: older)
  | stays {n : Moment} {h : List Moment} : IsUpBy i h → n.phase = .running → IsUpBy i (n :: h)

variable {s₀ s s' : Server} {m n : Moment} {older h : List Moment} {i j : TaskId} {x z : Place}
  {e : Effects Server}

/-- Where each call and each reader waits. -/
abbrev Spots := TaskId → Option Place

/-- The calls in a list are those that have launched the processes that there have been, one each. -/
structure Ledger (s₀ : Server) (l : List TaskId) (m : Moment) (spots : Spots) : Prop where
  due : ∀ i, (spots i).any Place.isDue = true → i ∉ l
  probing : ∀ i, (spots i).any Place.isProbing = true → i ∈ l
  known : ∀ i ∈ l, i < m.machine.next
  once : l.Nodup
  count : m.launches = s₀.around.launches + l.length

/-- What is true at every moment: how those who wait stand to each other, to the lock and to the
process. -/
structure Kept (s₀ : Server) (m : Moment) (older : List Moment) (spots : Spots) : Prop where
  tasks : ∀ p, p ∈ m.machine.tasks ↔ ∃ x, spots p.1 = some x ∧ x.task = p.2
  below : ∀ i x, spots i = some x → i < m.machine.next
  locked : m.machine.state.client.isChanging = true ↔ ∃ i, (spots i).any Place.isInside = true
  alone : ∀ i j, (spots i).any Place.isInside = true → (spots j).any Place.isInside = true → i = j
  down : ∀ i, (spots i).any Place.isInside = true → m.phase ≠ .running
  reader : ∀ i, m.machine.state.client.reader = some i →
    i < m.machine.next ∧ ∀ x, spots i = some x → ∃ r, x = .reading r
  ledger : Ledger s₀ (launchers (m :: older)) m spots
  up : m.phase = .running → ∃ i, IsUpBy i (m :: older)
  unmoved : ∀ i, m.machine.next ≤ i → movesOf i (m :: older) = 0
  brief : ∀ i x, spots i = some x → x.left = 0 ∨ movesOf i (m :: older) + x.left ≤ 4

theorem launchers_moved (hcause : n.cause = some (.moved i)) : launchers (n :: m :: older) =
    if n.launches = m.launches then launchers (m :: older) else i :: launchers (m :: older) := by
  rw [launchers, hcause]

theorem launchers_still (hcause : ∀ i, n.cause ≠ some (.moved i)) :
    launchers (n :: m :: older) = launchers (m :: older) := by
  rw [launchers]
  split
  · next i h => exact absurd h (hcause i)
  · rfl

theorem movesOf_moved (hcause : n.cause = some (.moved i)) :
    movesOf j (n :: h) = if j = i then movesOf j h + 1 else movesOf j h := by
  rw [movesOf, List.countP_cons, hcause]
  by_cases hj : j = i
  · subst hj
    simp [movesOf]
  · have hne : i ≠ j := fun hij => hj hij.symm
    simp [movesOf, hj, hne]

theorem movesOf_still (hcause : ∀ i, n.cause ≠ some (.moved i)) : movesOf j (n :: h) = movesOf j h := by
  rw [movesOf, List.countP_cons_of_neg (by simpa using hcause j), movesOf]

/-- Readers that are dropped leave everything as it is that startups depend on. -/
theorem stays_releaseAll {dropped : List (TaskId × Job Unit)} (s : Server)
    (h : ∀ p ∈ dropped, ∃ r : Reading, p.2 = r.task) :
    Stays s (dropped.foldl (fun s t => release t.2 s) s) := by
  induction dropped generalizing s with
  | nil => exact .refl s
  | cons p rest ih =>
    obtain ⟨r, hr⟩ := h p List.mem_cons_self
    have hp : Stays s (release p.2 s) := hr ▸ (Guard.stays_release r s).1
    exact hp.trans (ih _ fun q hq => h q (List.mem_cons_of_mem _ hq))

theorem stays_settle {m : Machine Server} {t : Job Unit}
    (h : ∀ p ∈ m.tasks, p.1 ∈ e.cancelled → ∃ r : Reading, p.2 = r.task) :
    Stays e.state (m.settle i (e, t)).state := by
  simp only [settle, List.partition_eq_filter_filter]
  refine stays_releaseAll e.state fun p hp => ?_
  obtain ⟨hp, hcancelled⟩ := List.mem_filter.mp hp
  exact h p (List.mem_filter.mp hp).1 (by simpa using hcancelled)

/-- Where everyone waits after a move. -/
def Spots.settle (spots : Spots) (n i : TaskId) (c : List TaskId) (y sent : Option Place) : Spots :=
  fun j => if j = i then y else if j ∈ c then none else if j = n then sent else spots j

theorem Spots.mem_settle {spots : Spots} {n : TaskId} {c : List TaskId} (hnew : spots n = none)
    (hi : i ≠ n) (hc : n ∉ c) (y sent : Option Place) (p : TaskId × Job Unit) :
    ((∃ x, spots p.1 = some x ∧ x.task = p.2) ∧ p.1 ≠ i ∧ p.1 ∉ c) ∨
        (p = (i, Place.rest y) ∧ isDone (Place.rest y) = false) ∨
        p ∈ (sent.map fun z => (n, z.task)).toList ↔
      ∃ x, spots.settle n i c y sent p.1 = some x ∧ x.task = p.2 := by
  obtain ⟨j, t⟩ := p
  have hself : ((j, t) = (i, Place.rest y) ∧ isDone (Place.rest y) = false) ↔
      j = i ∧ ∃ x, y = some x ∧ x.task = t := by
    cases y with
    | none => simp [Place.rest, isDone]
    | some x => simp [Place.rest, Place.isDone_task, eq_comm]
  have hsent : (j, t) ∈ (sent.map fun z => (n, z.task)).toList ↔
      j = n ∧ ∃ x, sent = some x ∧ x.task = t := by
    simp only [Option.mem_toList, Option.map_eq_some_iff, Prod.mk.injEq]
    constructor
    · rintro ⟨x, hx, hj, ht⟩
      exact ⟨hj.symm, x, hx, ht⟩
    · rintro ⟨hj, x, hx, ht⟩
      exact ⟨x, hx, hj.symm, ht⟩
  rw [hsent, hself, Spots.settle]
  dsimp only
  by_cases hji : j = i
  · subst hji
    simp [hi]
  · by_cases hjn : j = n
    · subst hjn
      simp [hji, hc, hnew]
    · by_cases hjc : j ∈ c <;> simp [hji, hjn, hjc]

theorem Spots.of_settle {spots : Spots} {n : TaskId} {c : List TaskId} {y sent : Option Place}
    (h : spots.settle n i c y sent j = some z) :
    (j = i ∧ y = some z) ∨ (j = n ∧ sent = some z) ∨ j ≠ i ∧ spots j = some z := by
  unfold Spots.settle at h
  split at h
  · next hj => exact .inl ⟨hj, h⟩
  · next hj =>
    split at h
    · cases h
    · split at h
      · next hn => exact .inr (.inl ⟨hn, h⟩)
      · exact .inr (.inr ⟨hj, h⟩)

theorem Spots.any_settle {spots : Spots} {n : TaskId} {c : List TaskId} {y sent : Option Place}
    {P : Place → Bool} (hP : ∀ r, P (.reading r) = false) (hnew : spots n = none)
    (hc : ∀ j ∈ c, ∀ z, spots j = some z → ∃ r, z = .reading r)
    (hsent : ∀ z, sent = some z → ∃ r, z = .reading r) :
    (spots.settle n i c y sent j).any P = if j = i then y.any P else (spots j).any P := by
  have hreading {o : Option Place} (ho : ∀ z, o = some z → ∃ r, z = .reading r) : o.any P = false := by
    cases o with
    | none => rfl
    | some z =>
      obtain ⟨r, rfl⟩ := ho z rfl
      exact hP r
  unfold Spots.settle
  split
  · rfl
  · split
    · next hj => exact (hreading (hc j hj)).symm
    · split
      · next hn => rw [hreading hsent, hn, hnew]; rfl
      · rfl

/-- One move of a call or a reader. -/
structure Moves (m : Machine Server) (spots : Spots) (i : TaskId) (x : Place) (e : Effects Server)
    (y sent : Option Place) (n : Machine Server) : Prop where
  found : spots i = some x
  move : Move m.next m.state x e y sent
  state : Stays e.state n.state
  same : e.cancelled = [] → n.state = e.state
  dropped : ∀ j ∈ e.cancelled, ∀ z, spots j = some z → ∃ r, z = .reading r
  next : n.next = e.next
  tasks : ∀ p, p ∈ n.tasks ↔ ∃ x, spots.settle m.next i e.cancelled y sent p.1 = some x ∧ x.task = p.2

namespace Moves

variable {m n : Machine Server} {spots : Spots} {y sent : Option Place}

theorem any_found (hm : Moves m spots i x e y sent n) {P : Place → Bool} : (spots i).any P = P x := by
  rw [hm.found]
  rfl

theorem next_eq (hm : Moves m spots i x e y sent n) :
    n.next = if sent.isSome then m.next + 1 else m.next :=
  hm.next.trans hm.move.next

theorem next_le (hm : Moves m spots i x e y sent n) : m.next ≤ n.next := by
  rw [hm.next_eq]
  split
  · exact Nat.le_succ _
  · exact Nat.le_refl _

theorem next_lt (hm : Moves m spots i x e y sent n) (h : sent.isSome = true) : m.next < n.next := by
  rw [hm.next_eq, if_pos h]
  exact Nat.lt_succ_self _

end Moves

namespace Kept

variable {spots : Spots}

theorem fresh (hk : Kept s₀ m older spots) : spots m.machine.next = none :=
  Option.eq_none_iff_forall_ne_some.mpr fun z hz => absurd (hk.below _ z hz) (Nat.lt_irrefl _)

theorem moves (hk : Kept s₀ m older spots) {n : Machine Server} (h : m.machine.step? i = some n) :
    ∃ x e y sent, Moves m.machine spots i x e y sent n := by
  obtain ⟨t, r, hlookup, hresume, rfl⟩ := step?_eq_some.mp h
  obtain ⟨x, hx, rfl⟩ := (hk.tasks _).mp (mem_of_lookup hlookup)
  have hi : i < m.machine.next := hk.below i x hx
  have hlocked (hin : x.isInside = true) : m.machine.state.client.isChanging = true :=
    hk.locked.mpr ⟨i, by rw [hx]; exact hin⟩
  obtain ⟨y, sent, hmove, hrest⟩ := move_of_resume hlocked hresume
  obtain ⟨e, t⟩ := r
  obtain rfl : t = Place.rest y := hrest
  have hdropped (j : TaskId) (hj : j ∈ e.cancelled) : j < m.machine.next ∧
      ∀ z, spots j = some z → ∃ r, z = .reading r := hk.reader j (hmove.cancelled j hj)
  have hself : i ∉ e.cancelled := by
    intro hself
    obtain ⟨r, hr⟩ := (hdropped i hself).2 x hx
    rw [hmove.cancelled_reading hr] at hself
    cases hself
  have hreaders (p : TaskId × Job Unit) (hp : p ∈ m.machine.tasks) (hc : p.1 ∈ e.cancelled) :
      ∃ r : Reading, p.2 = r.task := by
    obtain ⟨z, hz, htask⟩ := (hk.tasks p).mp hp
    obtain ⟨r, rfl⟩ := (hdropped p.1 hc).2 z hz
    exact ⟨r, htask.symm⟩
  refine ⟨x, e, y, sent, hx, hmove, stays_settle hreaders, fun hnone => state_settle hnone,
    fun j hj => (hdropped j hj).2, rfl, fun p => ?_⟩
  rw [Machine.mem_settle hself, hmove.spawned]
  refine Iff.trans ?_ (Spots.mem_settle hk.fresh (Nat.ne_of_lt hi) (fun hc => ?_) y sent p)
  · exact or_congr (and_congr_left' (hk.tasks p)) Iff.rfl
  · exact absurd (hdropped _ hc).1 (Nat.lt_irrefl _)

variable {y sent : Option Place}

/-- Of what readers do not do, nothing is different but for the one that has moved. -/
theorem any_moved (hk : Kept s₀ m older spots) {n : Machine Server}
    (hm : Moves m.machine spots i x e y sent n) {P : Place → Bool} (hP : ∀ r, P (.reading r) = false) :
    (spots.settle m.machine.next i e.cancelled y sent j).any P =
      if j = i then y.any P else (spots j).any P :=
  Spots.any_settle hP hk.fresh hm.dropped fun _ => hm.move.sent_reading

/-- Whoever moves, the lock is held by the one who makes a startup. -/
theorem lock_moved (hk : Kept s₀ m older spots) {n : Machine Server}
    (hm : Moves m.machine spots i x e y sent n) :
    let spots' := spots.settle m.machine.next i e.cancelled y sent
    (n.state.client.isChanging = true ↔ ∃ j, (spots' j).any Place.isInside = true) ∧
      ∀ j k, (spots' j).any Place.isInside = true → (spots' k).any Place.isInside = true → j = k := by
  have hchanging := hm.state.client.isChanging
  dsimp only
  simp only [hk.any_moved hm (P := Place.isInside) fun _ => rfl, hchanging]
  obtain ⟨hsame, hin⟩ | ⟨hmay, hin⟩ := hm.move.lock
  · -- whether the one that moves makes a startup is as it was
    have hback (j : TaskId) : (if j = i then y.any Place.isInside else (spots j).any Place.isInside) =
        (spots j).any Place.isInside := by
      split
      · next hj => rw [hj, hm.any_found, hin]
      · rfl
    simp only [hback, hsame]
    exact ⟨hk.locked, hk.alone⟩
  · -- the one that moves has the say on the lock, so nobody else is inside
    have hothers (j : TaskId) (hj : j ≠ i) : (spots j).any Place.isInside = false := by
      refine Bool.eq_false_iff.mpr fun hinside => ?_
      obtain hx | hfree := hmay
      · exact hj (hk.alone j i hinside (hm.any_found.trans hx))
      · cases hfree.symm.trans (hk.locked.mpr ⟨j, hinside⟩)
    have honly (j : TaskId)
        (hj : (if j = i then y.any Place.isInside else (spots j).any Place.isInside) = true) :
        j = i ∧ y.any Place.isInside = true := by
      split at hj
      · next h => exact ⟨h, hj⟩
      · next h => cases (hothers j h).symm.trans hj
    refine ⟨?_, fun j k hj hk => (honly j hj).1.trans (honly k hk).1.symm⟩
    rw [hin]
    exact ⟨fun h => ⟨i, by rwa [if_pos rfl]⟩, fun ⟨j, hj⟩ => (honly j hj).2⟩

/-- A call that finds the process up by its own startup is the one that it is up by. -/
theorem isUpBy_moved (hk : Kept s₀ m older spots) (hcause : n.cause = some (.moved i))
    (hm : Moves m.machine spots i x e y sent n.machine) (hup : n.phase = .running) :
    ∃ j, IsUpBy j (n :: m :: older) := by
  obtain hold | ⟨p, rfl, rfl⟩ := hm.move.phase.1 (hm.state.client.phase hup)
  · obtain ⟨j, hj⟩ := hk.up hold
    exact ⟨j, hj.stays hup⟩
  · have htold : n.Tells i (.ok ()) m := by
      refine ⟨hcause, (hm.tasks _).mpr ⟨_, if_pos rfl, rfl⟩, fun o ho => ?_⟩
      obtain ⟨z, hz, htask⟩ := (hk.tasks _).mp ho
      cases hm.found.symm.trans (hz.trans (congrArg some (Place.eq_told htask)))
    exact ⟨i, .came htold (hk.ledger.probing i (by rw [hm.found]; rfl)) hup⟩

theorem ledger_moved (hk : Kept s₀ m older spots) (hcause : n.cause = some (.moved i))
    (hm : Moves m.machine spots i x e y sent n.machine) :
    Ledger s₀ (launchers (n :: m :: older)) n (spots.settle m.machine.next i e.cancelled y sent) := by
  obtain ⟨hdue, hprobing, hknown, honce, hcount⟩ := hk.ledger
  have hle : m.machine.next ≤ n.machine.next := hm.next_le
  have hlaunches : n.launches = e.state.around.launches := hm.state.launches
  rw [launchers_moved hcause]
  obtain ⟨hsame, hdue', hprobing'⟩ | ⟨hmore, hx, hprobing', hnot⟩ := hm.move.launch
  · have hsame : n.launches = m.launches := hlaunches.trans hsame
    rw [if_pos hsame]
    refine ⟨fun j hj => ?_, fun j hj => ?_, fun j hj => Nat.lt_of_lt_of_le (hknown j hj) hle, honce,
      hsame.trans hcount⟩
    · rw [hk.any_moved hm fun _ => rfl] at hj
      split at hj
      · next h => exact hdue j (h ▸ hm.any_found.trans (hdue' hj))
      · exact hdue j hj
    · rw [hk.any_moved hm fun _ => rfl] at hj
      split at hj
      · next h => exact hprobing j (h ▸ hm.any_found.trans (hprobing' hj))
      · exact hprobing j hj
  · have hnew : n.launches = m.launches + 1 := hlaunches.trans hmore
    rw [if_neg (by omega)]
    -- a call that still may launch has launched nothing before
    have hfirst : i ∉ launchers (m :: older) := hdue i (hm.any_found.trans hx)
    refine ⟨fun j hj => ?_, fun j hj => ?_, fun j hj => ?_, List.nodup_cons.mpr ⟨hfirst, honce⟩, ?_⟩
    · rw [hk.any_moved hm fun _ => rfl] at hj
      split at hj
      · cases hnot.symm.trans hj
      · next h => exact List.not_mem_cons_of_ne_of_not_mem h (hdue j hj)
    · rw [hk.any_moved hm fun _ => rfl] at hj
      split at hj
      · next h => exact h ▸ List.mem_cons_self
      · exact List.mem_cons_of_mem _ (hprobing j hj)
    · obtain rfl | hj := List.mem_cons.mp hj
      · exact Nat.lt_of_lt_of_le (hk.below j x hm.found) hle
      · exact Nat.lt_of_lt_of_le (hknown j hj) hle
    · rw [hnew, hcount, List.length_cons, Nat.add_assoc]

theorem below_moved (hk : Kept s₀ m older spots) {n : Machine Server}
    (hm : Moves m.machine spots i x e y sent n)
    (hz : spots.settle m.machine.next i e.cancelled y sent j = some z) : j < n.next := by
  obtain ⟨rfl, -⟩ | ⟨rfl, hsent⟩ | ⟨-, hold⟩ := Spots.of_settle hz
  · exact Nat.lt_of_lt_of_le (hk.below j x hm.found) hm.next_le
  · exact hm.next_lt (Option.isSome_of_mem hsent)
  · exact Nat.lt_of_lt_of_le (hk.below j z hold) hm.next_le

/-- Whoever makes a startup after a move does so while the process is down. -/
theorem down_moved (hk : Kept s₀ m older spots) {n : Machine Server}
    (hm : Moves m.machine spots i x e y sent n)
    (hj : (spots.settle m.machine.next i e.cancelled y sent j).any Place.isInside = true) :
    n.state.client.phase ≠ .running := by
  intro hup
  rw [hk.any_moved hm fun _ => rfl] at hj
  obtain ⟨hbefore, hbegins⟩ := hm.move.phase
  obtain hold | ⟨p, rfl, rfl⟩ := hbefore (hm.state.client.phase hup)
  · split at hj
    · obtain hx | hdown := hbegins hj
      · exact hk.down i (hm.any_found.trans hx) hold
      · exact hdown hold
    · exact hk.down j hj hold
  · -- the process comes up by the one startup that was under way
    split at hj
    · cases hj
    · next hne => exact hne (hk.alone j i hj hm.any_found)

theorem reader_moved (hk : Kept s₀ m older spots) {n : Machine Server}
    (hm : Moves m.machine spots i x e y sent n) (hj : n.state.client.reader = some j) :
    j < n.next ∧ ∀ z, spots.settle m.machine.next i e.cancelled y sent j = some z →
      ∃ r, z = .reading r := by
  have hi : i < m.machine.next := hk.below i x hm.found
  obtain hold | ⟨rfl, hnew⟩ := hm.move.reader (hm.state.client.reader.symm.trans hj)
  · obtain ⟨hlt, hreading⟩ := hk.reader j hold
    refine ⟨Nat.lt_of_lt_of_le hlt hm.next_le, fun z hz => ?_⟩
    obtain ⟨rfl, hy⟩ | ⟨rfl, -⟩ | ⟨-, hz⟩ := Spots.of_settle hz
    · obtain ⟨r, hr⟩ := hreading x hm.found
      exact hm.move.reading hr hy
    · exact absurd hlt (Nat.lt_irrefl _)
    · exact hreading z hz
  · refine ⟨hm.next_lt hnew, fun z hz => ?_⟩
    obtain ⟨hji, -⟩ | ⟨-, hz⟩ | ⟨-, hz⟩ := Spots.of_settle hz
    · exact absurd hi (hji ▸ Nat.lt_irrefl _)
    · exact hm.move.sent_reading hz
    · cases hk.fresh.symm.trans hz

theorem brief_moved (hk : Kept s₀ m older spots) (hcause : n.cause = some (.moved i))
    (hm : Moves m.machine spots i x e y sent n.machine)
    (hz : spots.settle m.machine.next i e.cancelled y sent j = some z) :
    z.left = 0 ∨ movesOf j (n :: m :: older) + z.left ≤ 4 := by
  rw [movesOf_moved hcause]
  obtain ⟨rfl, hy⟩ | ⟨-, hz⟩ | ⟨hne, hz⟩ := Spots.of_settle hz
  · rw [if_pos rfl]
    obtain htold | hless := hm.move.left hy
    · exact .inl htold
    · have hbrief := hk.brief j x hm.found
      omega
  · obtain ⟨r, rfl⟩ := hm.move.sent_reading hz
    exact .inl rfl
  · rw [if_neg hne]
    exact hk.brief j z hz

theorem unmoved_moved (hk : Kept s₀ m older spots) (hcause : n.cause = some (.moved i))
    (hm : Moves m.machine spots i x e y sent n.machine) (hj : n.machine.next ≤ j) :
    movesOf j (n :: m :: older) = 0 := by
  have hj : m.machine.next ≤ j := Nat.le_trans hm.next_le hj
  have hne : j ≠ i := Nat.ne_of_gt (Nat.lt_of_lt_of_le (hk.below i x hm.found) hj)
  rw [movesOf_moved hcause, if_neg hne]
  exact hk.unmoved j hj

theorem moved (hk : Kept s₀ m older spots) (hcause : n.cause = some (.moved i))
    (hm : Moves m.machine spots i x e y sent n.machine) :
    Kept s₀ n (m :: older) (spots.settle m.machine.next i e.cancelled y sent) where
  tasks := hm.tasks
  below _ _ := hk.below_moved hm
  locked := (hk.lock_moved hm).1
  alone := (hk.lock_moved hm).2
  down _ := hk.down_moved hm
  reader _ := hk.reader_moved hm
  ledger := hk.ledger_moved hcause hm
  up := hk.isUpBy_moved hcause hm
  unmoved _ := hk.unmoved_moved hcause hm
  brief _ _ := hk.brief_moved hcause hm

theorem start (hnew : s₀.client = .new) : Kept s₀ ⟨none, Machine.start s₀⟩ [] fun _ => none where
  tasks _ := ⟨nofun, nofun⟩
  below _ _ := nofun
  locked := by
    show s₀.client.isChanging = true ↔ _
    rw [hnew]
    exact ⟨nofun, nofun⟩
  alone _ _ := nofun
  down _ := nofun
  reader i hi := by
    have hi : s₀.client.reader = some i := hi
    rw [hnew] at hi
    cases hi
  ledger := ⟨fun _ => nofun, fun _ => nofun, fun _ => nofun, .nil, rfl⟩
  up hup := by
    have hup : s₀.client.phase = .running := hup
    rw [hnew] at hup
    cases hup
  unmoved _ _ := rfl
  brief _ _ := nofun

section Still

variable {spots' : Spots}

/-- Nobody waits elsewhere than before, but that a call may have come. -/
def Joins (m n : Machine Server) (spots spots' : Spots) : Prop :=
  ∀ j z, spots' j = some z → spots j = some z ∨ j = m.next ∧ j < n.next ∧ z = .queued

theorem Joins.any {m n : Machine Server} (h : Joins m n spots spots') {P : Place → Bool}
    (hP : P .queued = false) (hj : (spots' j).any P = true) : (spots j).any P = true := by
  obtain ⟨z, hz, hPz⟩ := (Option.any_eq_true _ _).mp hj
  obtain hold | ⟨-, -, rfl⟩ := h j z hz
  · rw [hold]
    exact hPz
  · cases hP.symm.trans hPz

theorem ledger_still (hk : Kept s₀ m older spots) (hcause : ∀ i, n.cause ≠ some (.moved i))
    (hnext : m.machine.next ≤ n.machine.next) (hlaunches : n.launches = m.launches)
    (hjoins : Joins m.machine n.machine spots spots') :
    Ledger s₀ (launchers (n :: m :: older)) n spots' := by
  obtain ⟨hdue, hprobing, hknown, honce, hcount⟩ := hk.ledger
  rw [launchers_still hcause]
  refine ⟨fun j hj hmem => ?_, fun j hj => hprobing j (hjoins.any rfl hj),
    fun j hj => Nat.lt_of_lt_of_le (hknown j hj) hnext, honce, hlaunches.trans hcount⟩
  obtain ⟨z, hz, -⟩ := (Option.any_eq_true _ _).mp hj
  obtain hold | ⟨rfl, -⟩ := hjoins j z hz
  · rw [hz, ← hold] at hj
    exact hdue j hj hmem
  · exact absurd (hknown _ hmem) (Nat.lt_irrefl _)

/-- A moment in which no call and no reader moves. -/
theorem still (hk : Kept s₀ m older spots) (hcause : ∀ i, n.cause ≠ some (.moved i))
    (htasks : ∀ p, p ∈ n.machine.tasks ↔ ∃ x, spots' p.1 = some x ∧ x.task = p.2)
    (hnext : m.machine.next ≤ n.machine.next) (hstate : Calm m.machine.state n.machine.state)
    (hlocked : n.machine.state.client.isChanging = true ↔ ∃ i, (spots' i).any Place.isInside = true)
    (hjoins : Joins m.machine n.machine spots spots') : Kept s₀ n (m :: older) spots' where
  tasks := htasks
  below j z hz := by
    obtain hold | ⟨-, hlt, -⟩ := hjoins j z hz
    · exact Nat.lt_of_lt_of_le (hk.below j z hold) hnext
    · exact hlt
  locked := hlocked
  alone j k hj hk' := hk.alone j k (hjoins.any rfl hj) (hjoins.any rfl hk')
  down j hj hup := hk.down j (hjoins.any rfl hj) (hstate.phase hup)
  reader j hj := by
    obtain ⟨hlt, hreading⟩ := hk.reader j (hstate.reader j hj)
    refine ⟨Nat.lt_of_lt_of_le hlt hnext, fun z hz => ?_⟩
    obtain hold | ⟨rfl, -⟩ := hjoins j z hz
    · exact hreading z hold
    · exact absurd hlt (Nat.lt_irrefl _)
  ledger := hk.ledger_still hcause hnext hstate.launches hjoins
  up hup := by
    obtain ⟨j, hj⟩ := hk.up (hstate.phase hup)
    exact ⟨j, hj.stays hup⟩
  unmoved j hj := by
    rw [movesOf_still hcause]
    exact hk.unmoved j (Nat.le_trans hnext hj)
  brief j z hz := by
    rw [movesOf_still hcause]
    obtain hold | ⟨rfl, -, rfl⟩ := hjoins j z hz
    · exact hk.brief j z hold
    · rw [hk.unmoved _ (Nat.le_refl _)]
      exact .inr (Nat.le_refl 4)

end Still

theorem called (hk : Kept s₀ m older spots) :
    Kept s₀ ⟨some .called, m.machine.spawn calling⟩ (m :: older)
      fun j => if j = m.machine.next then some .queued else spots j := by
  have hinside (j : TaskId) :
      (if j = m.machine.next then some Place.queued else spots j).any Place.isInside =
        (spots j).any Place.isInside := by
    split
    · next hj => rw [hj, hk.fresh]; rfl
    · rfl
  refine hk.still nofun (fun p => ?_) (Nat.le_succ _) (.of_stays (.refl _)) ?_ fun j z hz => ?_
  · obtain ⟨j, t⟩ := p
    have hspawn : (j, t) ∈ (m.machine.spawn calling).tasks ↔
        (j, t) ∈ m.machine.tasks ∨ j = m.machine.next ∧ t = calling := by
      simp [spawn]
    rw [hspawn, hk.tasks]
    dsimp only
    split
    · next hj =>
      subst hj
      simp [hk.fresh, Place.task, eq_comm]
    · next hj => simp [hj]
  · simp only [hinside]
    exact hk.locked
  · split at hz
    · next hj => exact .inr ⟨hj, hj ▸ Nat.lt_succ_self _, (Option.some.inj hz).symm⟩
    · exact .inl hz

theorem dropped (hk : Kept s₀ m older spots) (hx : spots i = some x) :
    Kept s₀ ⟨some (.dropped i), { m.machine with
      tasks := m.machine.tasks.filter (·.1 ≠ i), state := release x.task m.machine.state }⟩ (m :: older)
      fun j => if j = i then none else spots j := by
  obtain ⟨hcalm, hchanging⟩ := x.calm_release m.machine.state
  refine hk.still nofun (fun p => ?_) (Nat.le_refl _) hcalm ?_ fun j z hz => ?_
  · obtain ⟨j, t⟩ := p
    simp only [List.mem_filter, decide_eq_true_eq]
    rw [hk.tasks]
    by_cases hj : j = i <;> simp [hj]
  · dsimp only
    rw [hchanging]
    have hself : (spots i).any Place.isInside = x.isInside := by rw [hx]; rfl
    split
    · next hin =>
      -- the startup that was under way is given up
      refine ⟨nofun, fun ⟨j, hj⟩ => ?_⟩
      split at hj
      · cases hj
      · next hne => exact absurd (hk.alone j i hj (hself.trans hin)) hne
    · next hout =>
      rw [hk.locked]
      refine exists_congr fun j => ?_
      split
      · next hj => rw [hj, hself, Bool.eq_false_iff.mpr hout]; rfl
      · rfl
  · split at hz
    · cases hz
    · exact .inl hz

end Kept

theorem Run.kept {l : List Moment} (h : Run s₀ l) :
    ∀ {m older}, l = m :: older → ∃ spots, Kept s₀ m older spots := by
  induction h with
  | start hnew =>
    intro m older heq
    cases heq
    exact ⟨_, .start hnew⟩
  | @next m older n c _ hn ih =>
    intro _ _ heq
    cases heq
    obtain ⟨spots, hk⟩ := ih rfl
    cases c with
    | called =>
      cases hn
      exact ⟨_, hk.called⟩
    | moved i =>
      obtain ⟨x, e, y, sent, hm⟩ := hk.moves hn
      exact ⟨_, hk.moved rfl hm⟩
    | dropped i =>
      obtain ⟨t, hlookup, rfl⟩ := Option.map_eq_some_iff.mp hn
      obtain ⟨x, hx, rfl⟩ := (hk.tasks _).mp (mem_of_lookup hlookup)
      exact ⟨_, hk.dropped hx⟩
    | passed span =>
      cases hn
      have hcalm : Calm m.machine.state m.machine.state := .of_stays (.refl _)
      exact ⟨spots, hk.still nofun hk.tasks (Nat.le_refl _) hcalm hk.locked fun _ _ => .inl⟩
  | others _ hcalm hsame ih =>
    intro _ _ heq
    cases heq
    obtain ⟨spots, hk⟩ := ih rfl
    refine ⟨spots, hk.still nofun hk.tasks (Nat.le_refl _) hcalm ?_ fun _ _ => .inl⟩
    exact hsame ▸ hk.locked

end LanguageServer.Server.Startups
