import LanguageServer.Proofs.Server.CallerLog

/-! The guard on restarts. However many callers there are, whatever becomes of the process and whenever
they move: how often a crashed process is restarted, when a start is refused, and when one is tried. -/
namespace LanguageServer.Server.Guard

open Analyzer Machine

variable {crew fresh : Crew} {s s' : Server} {next i : TaskId} {x : Station} {y : Option Station}

/-- What there is besides the moves: one more call, what becomes of everything else while nobody but the
callers starts or stops the process, and time that passes. -/
inductive Happens : Machine Server → Machine Server → Prop
  | call (m : Machine Server) : Happens m (m.spawn call)
  | other {m : Machine Server} {s : Server} : Stays m.state s → Happens m { m with state := s }
  | passes {m : Machine Server} (t : Instant) (c : Option Instant) : m.state.time m.now ≤ c.getD t →
      Happens m { m with
        now := t, state := { m.state with around := { m.state.around with clock := c } } }

/-- A machine of callers, from a server that has started no process, with the turns taken so far, latest
first. -/
inductive Run : List Turn → Machine Server → Prop
  | start (s : Server) : s.client = .new → s.starts = ⟨[], none, false⟩ → Run [] (Machine.start s)
  | others {h : List Turn} {m n : Machine Server} : Run h m → Happens m n → Run h n
  | move {h : List Turn} {m n : Machine Server} (i : TaskId) : Run h m → m.step? i = some n →
      Run (⟨i, m⟩ :: h) n

/-- What becomes of a machine before one of its tasks moves. -/
inductive Meanwhile (i : TaskId) (m : Machine Server) : Machine Server → Prop
  | refl : Meanwhile i m m
  | others {n o : Machine Server} : Meanwhile i m n → Happens n o → Meanwhile i m o
  | move {n o : Machine Server} (j : TaskId) : j ≠ i → Meanwhile i m n → n.step? j = some o →
      Meanwhile i m o

/-- The launcher was asked for a process: there is one, or the caller was told why there is none. -/
def Asked (i : TaskId) (m n : Machine Server) : Prop :=
  n.state.around.launches = m.state.around.launches + 1 ∨
    ∃ f, m.state.around.launcher.launch m.state.around.files m.state.around.environment = .error f ∧
      (i, keep (.error (unavailable f))) ∈ n.tasks

/-- Whatever the others do, the caller can move at once, and asks the launcher within so many moves. -/
def Asks (i : TaskId) : Nat → Machine Server → Prop
  | 0, _ => False
  | k + 1, m => ∀ o, Meanwhile i m o → ∃ p, o.step? i = some p ∧ (Asked i o p ∨ Asks i k p)

section Runs

variable {h : List Turn} {m n : Machine Server} {e : Effects Server}

/-- The crew of a machine, and what the turns so far say of it. -/
structure Bound (h : List Turn) (crew : Crew) (m : Machine Server) : Prop where
  tasks : m.tasks = crew.tasks
  sound : Sound crew m.state m.next
  log : Log h crew m.next
  memory : Memory m.state.configuration.restartWindow h crew m.state.starts.failed (m.state.time m.now)
  counted : Counted m.state.configuration.restartWindow m.state.configuration.maxRestarts h
    m.state.starts.restarts (m.state.time m.now)

theorem Bound.move (hb : Bound h crew m) (hn : m.step? i = some n) : ∃ x e y fresh,
    Moved crew m i x e y fresh n ∧ Bound (⟨i, m⟩ :: h) (crew.settle i e.cancelled y fresh) n := by
  obtain ⟨x, e, y, fresh, hm⟩ := hb.sound.moves hb.tasks hn
  obtain ⟨hconf, hclock⟩ := hm.stride.frame
  have hconf : n.state.configuration = m.state.configuration := hm.stays.configuration.trans hconf
  have htime : n.state.time n.now = m.state.time m.now := by
    rw [Server.time, hm.stays.clock, hclock, hm.now]
    rfl
  refine ⟨x, e, y, fresh, hm, hm.tasks, hm.sound hb.sound, hm.log hb.log hb.sound hb.tasks hn, ?_, ?_⟩
  · rw [hconf, htime]
    exact hm.memory hb.log hb.sound hb.tasks hb.memory
  · rw [hconf, htime]
    exact hm.counted hb.sound hb.tasks hb.counted

theorem Sound.other (hs : Sound crew s next) (hstarts : s'.starts = s.starts)
    (hclient : Clears s.client s'.client) : Sound crew s' next where
  held i x hx hb := congrArg StartHistory.isHeld hstarts ▸ hs.held i x hx hb
  alone := hs.alone
  changing hc := hs.changing (hclient.isChanging ▸ hc)
  down i began hx hup := hs.down i began hx (hclient.phase hup)
  distinct := hs.distinct
  below := hs.below
  cleared i began old hx := hclient.reader.trans (hs.cleared i began old hx)
  readers i r hx := hclient.reader.trans (hs.readers i r hx)
  manned i hi := hs.manned i (hclient.reader.symm.trans hi)
  reaping id hid := hs.reaping id (hclient.isReaping id hid)

theorem Crew.mem_call {j : TaskId} : (j, x) ∈ crew ++ [(i, Station.called)] ↔
    (j, x) ∈ crew ∨ j = i ∧ x = .called := by
  simp [List.mem_append]

theorem Sound.call (hs : Sound crew s next) : Sound (crew ++ [(next, .called)]) s (next + 1) := by
  have hback {j : TaskId} {z : Station} (hz : (j, z) ∈ crew ++ [(next, Station.called)])
      (hnot : z ≠ .called) : (j, z) ∈ crew :=
    (Crew.mem_call.mp hz).resolve_right fun h => hnot h.2
  have hholds {z : Station} (hz : z.began?.isSome = true) : z ≠ .called := by
    rintro rfl
    cases hz
  constructor
  · constructor
    case held => exact fun j z hz hb => hs.held j z (hback hz (hholds hb)) hb
    case alone =>
      exact fun j z k w hz hw hb hb' =>
        hs.alone j z k w (hback hz (hholds hb)) (hback hw (hholds hb')) hb hb'
    case changing =>
      intro hc
      obtain ⟨j, z, hz, hinside⟩ := hs.changing hc
      exact ⟨j, z, List.mem_append_left _ hz, hinside⟩
    case down => exact fun j began hz => hs.down j began (hback hz nofun)
  · constructor
    case distinct =>
      rw [List.map_append]
      refine List.nodup_append.mpr ⟨hs.distinct, List.nodup_singleton _, fun j hj k hk => ?_⟩
      obtain ⟨p, hp, rfl⟩ := List.mem_map.mp hj
      rw [List.mem_singleton.mp hk]
      exact Nat.ne_of_lt (hs.below p.1 p.2 hp)
    case below =>
      intro j z hz
      obtain hz | ⟨rfl, -⟩ := Crew.mem_call.mp hz
      · exact Nat.lt_succ_of_lt (hs.below j z hz)
      · exact Nat.lt_succ_self _
    case cleared => exact fun j began old hz => hs.cleared j began old (hback hz nofun)
    case readers => exact fun j r hz => hs.readers j r (hback hz nofun)
    case manned =>
      intro j hj
      obtain ⟨hlt, hreading⟩ := hs.manned j hj
      refine ⟨Nat.lt_succ_of_lt hlt, fun z hz => ?_⟩
      obtain hz | ⟨rfl, -⟩ := Crew.mem_call.mp hz
      · exact hreading z hz
      · exact absurd hlt (Nat.lt_irrefl _)
    case reaping =>
      intro id hid
      obtain ⟨j, r, hr, hheld⟩ := hs.reaping id hid
      exact ⟨j, r, List.mem_append_left _ hr, hheld⟩

theorem Bound.call (hb : Bound h crew m) : Bound h (crew ++ [(m.next, .called)]) (m.spawn call) := by
  have hback {j : TaskId} {z : Station} (hz : (j, z) ∈ crew ++ [(m.next, Station.called)])
      (hnot : z ≠ .called) : (j, z) ∈ crew :=
    (Crew.mem_call.mp hz).resolve_right fun h => hnot h.2
  refine ⟨?_, hb.sound.call, ?_, ?_, hb.counted⟩
  · show m.tasks ++ _ = _
    rw [hb.tasks, Crew.tasks, Crew.tasks, List.map_append]
    rfl
  · constructor
    case who => exact fun t ht => Nat.lt_succ_of_lt (hb.log.who t ht)
    case settled =>
      intro t ht hd z hz
      obtain hz | ⟨hwho, -⟩ := Crew.mem_call.mp hz
      · exact hb.log.settled t ht hd z hz
      · exact absurd hwho (Nat.ne_of_lt (hb.log.who t ht))
    case once => exact hb.log.once
    case begun =>
      intro j z began hz hbegan
      refine hb.log.begun j z began (hback hz ?_) hbegan
      rintro rfl
      cases hbegan
    case due =>
      intro j z hz hdue t ht hwho
      obtain hz | ⟨rfl, -⟩ := Crew.mem_call.mp hz
      · exact hb.log.due j z hz hdue t ht hwho
      · exact absurd hwho (Nat.ne_of_lt (hb.log.who t ht))
  · refine hb.memory.alike hb.memory.past (fun t f => ?_) (fun j z began hz hbegan => ?_) (.inl rfl)
    · refine and_congr_right fun _ => and_congr_right fun _ => ?_
      exact ⟨fun hz => hback hz (by simp), List.mem_append_left _⟩
    · refine .inl ⟨j, z, hback hz ?_, hbegan⟩
      rintro rfl
      cases hbegan

theorem Bound.happens (hb : Bound h crew m) (hn : Happens m n) :
    ∃ crew', Bound h crew' n ∧ ∀ p ∈ crew, p ∈ crew' := by
  cases hn with
  | call => exact ⟨_, hb.call, fun _ => List.mem_append_left _⟩
  | @other s hs =>
    have htime : s.time m.now = m.state.time m.now := by
      rw [Server.time, hs.clock]
      rfl
    refine ⟨crew, ⟨hb.tasks, hb.sound.other hs.starts hs.client, hb.log, ?_, ?_⟩, fun _ hp => hp⟩
    · show Memory s.configuration.restartWindow h crew s.starts.failed (s.time m.now)
      rw [hs.configuration, hs.starts, htime]
      exact hb.memory
    · show Counted s.configuration.restartWindow s.configuration.maxRestarts h s.starts.restarts
        (s.time m.now)
      rw [hs.configuration, hs.starts, htime]
      exact hb.counted
  | passes t c hle =>
    exact ⟨crew, ⟨hb.tasks, hb.sound.other rfl (.refl _), hb.log, hb.memory.later hle,
      hb.counted.later hle⟩, fun _ hp => hp⟩

theorem Bound.start (hclient : s.client = .new) (hstarts : s.starts = ⟨[], none, false⟩) :
    Bound [] [] (Machine.start s) := by
  have hempty (i : TaskId) (x : Station) : (i, x) ∉ ([] : Crew) := List.not_mem_nil
  have hnone (t : Turn) : t ∉ ([] : List Turn) := List.not_mem_nil
  constructor
  case tasks => rfl
  case sound =>
    constructor
    · constructor
      case held => exact fun i x hx => absurd hx (hempty i x)
      case alone => exact fun i x j y hx => absurd hx (hempty i x)
      case changing =>
        intro hc
        have hc : s.client.isChanging = true := hc
        rw [hclient] at hc
        cases hc
      case down => exact fun i began hx => absurd hx (hempty i _)
    · constructor
      case distinct => exact .nil
      case below => exact fun i x hx => absurd hx (hempty i x)
      case cleared => exact fun i began old hx => absurd hx (hempty i _)
      case readers => exact fun i r hx => absurd hx (hempty i _)
      case manned =>
        intro i hi
        have hi : s.client.reader = some i := hi
        rw [hclient] at hi
        cases hi
      case reaping =>
        intro id hid
        have hid : (s.client.channel id).isReaping = true := hid
        rw [hclient] at hid
        cases hid
  case log =>
    exact ⟨fun t ht => absurd ht (hnone t), fun t ht => absurd ht (hnone t),
      fun t ht => absurd ht (hnone t), fun i x began hx => absurd hx (hempty i x),
      fun i x hx => absurd hx (hempty i x)⟩
  case memory =>
    refine ⟨fun t ht => absurd ht (hnone t), fun i x began hx => absurd hx (hempty i x),
      fun t ht => absurd ht (hnone t), fun began f hf => ?_, fun t ht => absurd ht (hnone t)⟩
    have hf : s.starts.failed = some (began, f) := hf
    rw [hstarts] at hf
    cases hf
  case counted =>
    show Counted _ _ [] s.starts.restarts _
    rw [hstarts]
    exact .nil

theorem Run.binds (hr : Run h m) : ∃ crew, Bound h crew m := by
  induction hr with
  | start s hclient hstarts => exact ⟨[], .start hclient hstarts⟩
  | others _ hn ih =>
    obtain ⟨crew, hb⟩ := ih
    obtain ⟨crew', hb', -⟩ := hb.happens hn
    exact ⟨crew', hb'⟩
  | move i _ hn ih =>
    obtain ⟨crew, hb⟩ := ih
    obtain ⟨_, _, _, _, -, hb'⟩ := hb.move hn
    exact ⟨_, hb'⟩

/-- A caller that is to launch the process does so in one move, unless it has to end an older one. -/
theorem Moved.asked {began : Instant} (hm : Moved crew m i x e y fresh n) (hdue : x.isDue = true)
    (hx : x.began? = some began) :
    Asked i m n ∨ x = .trying began ∧ ∃ old, y = some (.clearing began old) := by
  have hstride := hm.stride
  cases hstride with
  | clears =>
    cases hx
    exact .inr ⟨rfl, _, rfl⟩
  | launches _ _ hs => exact .inl (.inl (hm.stays.launches.trans hs.launches))
  | fails _ hwhy =>
    obtain ⟨p, rfl⟩ | ⟨f, hf, hreason⟩ := hwhy
    · cases hdue
    · refine .inl (.inr ⟨f, hf, ?_⟩)
      rw [hm.tasks, hreason]
      exact Crew.mem_tasks.mpr ⟨_, Crew.mem_settle.mpr (.inr (.inl ⟨rfl, rfl⟩)), rfl⟩
  | asks | decides | stays | reads => cases hx
  | probes | comesUp => cases hdue

theorem Bound.refuses {plan : StartPlan} (hb : Bound h crew m)
    (hp : Planned (m.state.time m.now) m.state plan s')
    (hdown : m.state.client.status.isRunning = false)
    (hshut : ¬ (m.state.client.status = .stopped ∧ m.state.isShutDown = true)) {t : Turn} {f : Failure}
    (ht : t ∈ h) (hf : Fails crew t f)
    (hlate : m.state.time m.now < t.time.after m.state.configuration.restartWindow) :
    plan = .refused f ∧ s' = m.state := by
  have hfailed := (hb.memory.remembered t ht f hf).resolve_right (Nat.not_le.mpr hlate)
  have hforgets : ¬ Forgets (m.state.time m.now) m.state := fun hforgets =>
    absurd (hb.memory.forgets hforgets t.time f hfailed) (Nat.not_le.mpr hlate)
  cases hp with
  | running hup =>
    rw [hdown] at hup
    cases hup
  | shut h => exact absurd h hshut
  | remembered _ hfailed' =>
    cases hfailed.symm.trans hfailed'
    exact ⟨rfl, rfl⟩
  | exhausted _ h | restarts _ h | starts _ _ h => exact absurd h hforgets

end Runs

section Refusal

/-- A server whose launcher finds no program. -/
def refusing : Server := .new ⟨.empty, [], .scripted (some (.unavailable "gone")), [], 0, none⟩ {}

/-- A machine after a move, if the task can make one. -/
def onward (i : TaskId) (m : Machine Server) : Machine Server := (m.step? i).getD m

end Refusal

end LanguageServer.Server.Guard
