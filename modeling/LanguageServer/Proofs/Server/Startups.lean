import LanguageServer.Proofs.Server.StartRuns

/-! Who launches a process, of any number of calls of a start, and who is told what. -/
namespace LanguageServer.Server.Startups

open Analyzer Machine
open Guard (keep)

/-- What becomes of calls from one moment `m` to the next one `n`. -/
structure Outcomes (s₀ : Server) (n m : Moment) (older : List Moment) : Prop where
  /-- Every process was launched by another call. -/
  launched : n.launches = s₀.around.launches + (launchers (n :: m :: older)).length ∧
    (launchers (n :: m :: older)).Nodup
  /-- One startup is under way at a time. -/
  single : ∀ i j, m.IsInside i → m.IsInside j → i = j
  /-- While none is, a call that waits can go on. -/
  turn : ∀ i, m.Waits i → (m.machine.step? i).isSome = true ∨ ∃ j, m.IsInside j
  /-- Whoever makes a startup can go on in the end, unless the end of a process is waited for. -/
  goesOn : ∀ i, m.IsInside i → ∃ limit : Instant, ∀ now, limit ≤ now →
    ({ m.machine with now }.step? i).isSome = true ∨
      ∃ id, (m.machine.state.client.channel id).isReaping = true
  /-- Four moves, and a call has been told. -/
  brief : ∀ i, n.Waits i ∨ n.IsInside i → movesOf i (n :: m :: older) < 4
  /-- A call whose turn comes while the process is running is told so, and nothing else happens. -/
  shares : ∀ i, m.Waits i → n.cause = some (.moved i) → m.phase = .running →
    n.machine.state = m.machine.state ∧ n.Tells i (.ok ()) m
  /-- Whoever is told has launched a process itself, or was refused one, or the process is up by the
  startup of another. -/
  told : ∀ i o, n.Tells i o m → i ∈ launchers (m :: older) ∨ i ∉ launchers (n :: m :: older) ∧
    ((∃ f, Refuses m.machine.state f ∧ o = .error (unavailable f)) ∨
      o = .ok () ∧ n.machine.state = m.machine.state ∧ ∃ j, j ≠ i ∧ IsUpBy j (m :: older))
  /-- A startup that fails leaves the process down. -/
  failed : ∀ i f, n.Tells i (.error f) m → n.phase ≠ .running

variable {s₀ : Server} {m n : Moment} {older h : List Moment} {i : TaskId} {x : Place}
  {e : Effects Server}

namespace Kept

variable {spots : Spots}

theorem waits (hk : Kept s₀ m older spots) (h : m.Waits i) : spots i = some .queued := by
  obtain ⟨x, hx, htask⟩ := (hk.tasks _).mp h
  rw [hx, Place.eq_queued htask]

theorem isInside_iff (hk : Kept s₀ m older spots) :
    m.IsInside i ↔ ∃ x, spots i = some x ∧ x.isInside = true := by
  constructor
  · rintro ⟨x, hin, hmem⟩
    obtain ⟨z, hz, htask⟩ := (hk.tasks _).mp hmem
    exact ⟨z, hz, Place.isInside_of_task htask hin⟩
  · rintro ⟨x, hx, hin⟩
    exact ⟨x, hin, (hk.tasks _).mpr ⟨x, hx, rfl⟩⟩

theorem any_isInside (hk : Kept s₀ m older spots) (h : m.IsInside i) :
    (spots i).any Place.isInside = true :=
  (Option.any_eq_true _ _).mpr (hk.isInside_iff.mp h)

/-- Whoever waits is found where it waits. -/
theorem isSome_step? (hk : Kept s₀ m older spots) (hx : spots i = some x) {now : Instant}
    (h : (resume now x.task m.machine.effects).isSome = true) :
    ({ m.machine with now }.step? i).isSome = true := by
  obtain ⟨t, ht⟩ : ∃ t, m.machine.tasks.lookup i = some t := by
    have hmem : (i, x.task) ∈ m.machine.tasks := (hk.tasks _).mpr ⟨x, hx, rfl⟩
    cases hlookup : m.machine.tasks.lookup i with
    | some t => exact ⟨t, rfl⟩
    | none => exact absurd (List.lookup_eq_none_iff.mp hlookup _ hmem) (by simp)
  obtain ⟨z, hz, rfl⟩ := (hk.tasks _).mp (mem_of_lookup ht)
  obtain rfl := Option.some.inj (hz.symm.trans hx)
  obtain ⟨r, hr⟩ := Option.isSome_iff_exists.mp h
  exact Option.isSome_iff_exists.mpr ⟨_, step?_eq_some.mpr ⟨_, r, ht, hr, rfl⟩⟩

variable {y sent : Option Place}

theorem told_moved (hk : Kept s₀ m older spots) {o : Except Failure Unit} (ho : n.Tells i o m)
    (hm : Moves m.machine spots i x e y sent n.machine) : y = some (.told o) ∧ ∀ o', x ≠ .told o' := by
  obtain ⟨-, hnow, hbefore⟩ := ho
  constructor
  · obtain ⟨z, hz, htask⟩ := (hm.tasks _).mp hnow
    have hz : y = some z := (if_pos rfl).symm.trans hz
    rw [hz, Place.eq_told htask]
  · rintro o' rfl
    exact hbefore o' ((hk.tasks _).mpr ⟨_, hm.found, rfl⟩)

end Kept

/-- A call that the process is up by has launched one. -/
theorem IsUpBy.mem_launchers (h : IsUpBy i older) : i ∈ launchers older := by
  have hcons {n : Moment} {l : List Moment} (hi : i ∈ launchers l) : i ∈ launchers (n :: l) := by
    cases l with
    | nil => cases hi
    | cons m l =>
      rw [launchers]
      split
      · split
        · exact hi
        · exact List.mem_cons_of_mem _ hi
      · exact hi
  induction h with
  | came _ hi => exact hcons hi
  | stays _ _ ih => exact hcons ih

namespace Kept

variable {spots : Spots} {y sent : Option Place}

/-- A call that is told has launched a process, or was refused one, or shares the startup of another. -/
theorem told (hk : Kept s₀ m older spots) {o : Except Failure Unit} (ho : n.Tells i o m)
    (hm : Moves m.machine spots i x e y sent n.machine) :
    i ∈ launchers (m :: older) ∨ i ∉ launchers (n :: m :: older) ∧
      ((∃ f, Refuses m.machine.state f ∧ o = .error (unavailable f)) ∨
        o = .ok () ∧ n.machine.state = m.machine.state ∧ ∃ j, j ≠ i ∧ IsUpBy j (m :: older)) := by
  obtain ⟨hy, hx⟩ := hk.told_moved ho hm
  have hdue (hx : x.isDue = true) : i ∉ launchers (m :: older) := hk.ledger.due i (hm.any_found.trans hx)
  have hsame (hx : x.isDue = true) (he : e.state.around.launches = m.launches) :
      i ∉ launchers (n :: m :: older) := by
    rw [launchers_moved ho.1, if_pos (show n.launches = m.launches from hm.state.launches.trans he)]
    exact hdue hx
  have hprobing (hx : x.isProbing = true) : i ∈ launchers (m :: older) :=
    hk.ledger.probing i (hm.any_found.trans hx)
  obtain ⟨-, hmove, -, hstill, -, -, -⟩ := hm
  cases hmove with
  | shares _ hup =>
    cases hy
    obtain ⟨j, hj⟩ := hk.up hup
    have hother : j ≠ i := fun hji => hdue rfl (hji ▸ hj.mem_launchers)
    exact .inr ⟨hsame rfl rfl, .inr ⟨rfl, hstill rfl, j, hother, hj⟩⟩
  | refused hasks _ hf hcalm =>
    cases hy
    have hisDue : x.isDue = true := by cases hasks <;> rfl
    exact .inr ⟨hsame hisDue hcalm.launches, .inl ⟨_, hf, rfl⟩⟩
  | comesUp | fails => exact .inl (hprobing rfl)
  | stays => exact absurd rfl (hx _)
  | clears | launches | probes => cases hy
  | reads => obtain ⟨q, -, hq⟩ := Option.map_eq_some_iff.mp hy; cases hq

/-- A call that is told of a failure leaves the process down. -/
theorem failed (hk : Kept s₀ m older spots) {f : Failure} (ho : n.Tells i (.error f) m)
    (hm : Moves m.machine spots i x e y sent n.machine) : n.phase ≠ .running := by
  obtain ⟨hy, hx⟩ := hk.told_moved ho hm
  have hdown (hx : x.isInside = true) : m.phase ≠ .running := hk.down i (hm.any_found.trans hx)
  intro hup
  have hup : e.state.client.phase = .running := hm.state.client.phase hup
  obtain ⟨-, hmove, -⟩ := hm
  cases hmove with
  | refused _ _ _ _ hphase => cases hphase.symm.trans hup
  | fails _ hcalm => exact hdown rfl (hcalm.phase hup)
  | stays => exact absurd rfl (hx _)
  | shares | clears | launches | probes | comesUp => cases hy
  | reads => obtain ⟨q, -, hq⟩ := Option.map_eq_some_iff.mp hy; cases hq

/-- A call that finds the process running is told so, and changes nothing. -/
theorem shares (hk : Kept s₀ m older spots) (hcause : n.cause = some (.moved i)) (hwaits : m.Waits i)
    (hup : m.phase = .running) (hm : Moves m.machine spots i x e y sent n.machine) :
    n.machine.state = m.machine.state ∧ n.Tells i (.ok ()) m := by
  have hqueued := hk.waits hwaits
  obtain rfl := Option.some.inj (hm.found.symm.trans hqueued)
  have htold (o : Except Failure Unit) : (i, keep o) ∉ m.machine.tasks := by
    intro ho
    obtain ⟨z, hz, htask⟩ := (hk.tasks _).mp ho
    cases hqueued.symm.trans (hz.trans (congrArg some (Place.eq_told htask)))
  obtain ⟨-, hmove, -, hstill, -, -, htasks⟩ := hm
  cases hmove with
  | shares => exact ⟨hstill rfl, hcause, (htasks _).mpr ⟨_, if_pos rfl, rfl⟩, htold⟩
  | clears hasks | launches hasks | refused hasks =>
    cases hasks with
    | queued _ hdown => exact absurd hup hdown

/-- Either it is the turn of those who wait, or a startup is under way. -/
theorem turn (hk : Kept s₀ m older spots) (hi : m.Waits i) :
    (m.machine.step? i).isSome = true ∨ ∃ j, m.IsInside j := by
  cases hchanging : m.machine.state.client.isChanging with
  | false =>
    have hgoes : (resume m.machine.now Place.queued.task m.machine.effects).isSome = true :=
      Option.isSome_iff_exists.mpr ⟨_, resume_calling hchanging⟩
    exact .inl (hk.isSome_step? (hk.waits hi) hgoes)
  | true =>
    obtain ⟨j, hj⟩ := hk.locked.mp hchanging
    exact .inr ⟨j, hk.isInside_iff.mpr ((Option.any_eq_true _ _).mp hj)⟩

theorem goesOn (hk : Kept s₀ m older spots) (hi : m.IsInside i) :
    ∃ limit : Instant, ∀ now, limit ≤ now → ({ m.machine with now }.step? i).isSome = true ∨
      ∃ id, (m.machine.state.client.channel id).isReaping = true := by
  obtain ⟨x, hx, hin⟩ := hk.isInside_iff.mp hi
  obtain ⟨limit, hlimit⟩ := x.isSome_resume_inside hin m.machine.state m.machine.next
  exact ⟨limit, fun now hnow => (hlimit now hnow).imp_left (hk.isSome_step? hx)⟩

/-- A call that has yet to be told has a move left. -/
theorem movesOf_lt (hk : Kept s₀ m older spots) (hi : m.Waits i ∨ m.IsInside i) :
    movesOf i (m :: older) < 4 := by
  obtain ⟨x, hx, hleft⟩ : ∃ x, spots i = some x ∧ 0 < x.left := by
    obtain hi | hi := hi
    · exact ⟨_, hk.waits hi, Nat.succ_pos 3⟩
    · obtain ⟨x, hx, hin⟩ := hk.isInside_iff.mp hi
      exact ⟨x, hx, Place.left_pos hin⟩
  have hbrief := hk.brief i x hx
  omega

end Kept

/-- A startup is shared by those whose turn comes while the process that it has launched is up. Whoever's
turn comes after a startup that failed makes one of its own. -/
theorem Run.outcomes (h : Run s₀ (n :: m :: older)) : Outcomes s₀ n m older := by
  obtain ⟨spots', hk'⟩ := h.kept rfl
  obtain ⟨spots, hk⟩ : ∃ spots, Kept s₀ m older spots := by
    cases h with
    | next _ hm | others hm => exact hm.kept rfl
  have hmoves {i : TaskId} (hcause : n.cause = some (.moved i)) : ∃ x e y sent,
      Moves m.machine spots i x e y sent n.machine := by
    cases h with
    | next c _ hn =>
      obtain rfl := Option.some.inj hcause
      exact hk.moves hn
    | others => cases hcause
  refine
  { launched := ⟨hk'.ledger.count, hk'.ledger.once⟩
    single := fun i j hi hj => hk.alone i j (hk.any_isInside hi) (hk.any_isInside hj)
    turn := fun _ => hk.turn
    goesOn := fun _ => hk.goesOn
    brief := fun _ => hk'.movesOf_lt
    shares := fun i hi hcause hup => ?_
    told := fun i o ho => ?_
    failed := fun i f ho => ?_ }
  · obtain ⟨x, e, y, sent, hm⟩ := hmoves hcause
    exact hk.shares hcause hi hup hm
  · obtain ⟨x, e, y, sent, hm⟩ := hmoves ho.1
    exact hk.told ho hm
  · obtain ⟨x, e, y, sent, hm⟩ := hmoves ho.1
    exact hk.failed ho hm

section Silence

/-- The moments that causes lead to, the last first. -/
def history (s : Server) : List Cause → Option (List Moment)
  | [] => some [⟨none, Machine.start s⟩]
  | c :: causes =>
    match history s causes with
    | some (m :: older) => (c.apply m.machine).map fun n => ⟨some c, n⟩ :: m :: older
    | _ => none

theorem run_of_history (hs : s₀.client = .new) {causes : List Cause} (h' : history s₀ causes = some h) :
    Run s₀ h := by
  induction causes generalizing h with
  | nil =>
    cases h'
    exact .start hs
  | cons c causes ih =>
    rw [history] at h'
    split at h'
    · next m older hbefore =>
      obtain ⟨n, hn, rfl⟩ := Option.map_eq_some_iff.mp h'
      exact .next c (ih hbefore) hn
    · cases h'

/-- A server whose processes never answer. -/
def silent : Server := .new ⟨.empty, [], .scripted none, [], 0, none⟩ {}

/-- Two calls; the process of the first does not answer in time, then it is the turn of the second. -/
def turns : List Cause :=
  [.moved 1, .moved 0, .moved 0, .passed (.ofSeconds 10), .moved 0, .called, .called]

def outcome? : Option (List TaskId × Nat × Phase × Phase) :=
  match history silent turns with
  | some (n :: m :: older) => some (launchers (n :: m :: older), n.launches, m.phase, n.phase)
  | _ => none

/-- The second call, which has been waiting for the startup of the first, launches a process as well. -/
theorem Run.outcomes_silent : ∃ n m older, Run silent (n :: m :: older) ∧ Outcomes silent n m older ∧
    launchers (n :: m :: older) = [1, 0] ∧ n.launches = 2 ∧ m.phase = .notStarted ∧
    n.phase = .starting := by
  have houtcome : outcome? = some ([1, 0], 2, .notStarted, .starting) := by decide +kernel
  rw [outcome?] at houtcome
  split at houtcome
  · next n m older hhistory =>
    simp only [Option.some.injEq, Prod.mk.injEq] at houtcome
    have hrun : Run silent (n :: m :: older) := run_of_history rfl hhistory
    exact ⟨n, m, older, hrun, hrun.outcomes, houtcome⟩
  · cases houtcome

end Silence

end LanguageServer.Server.Startups
