import LanguageServer.Proofs.Analyzer.Books

/-! Callers that have the process started, and the readers that they send out: the parts of what each
does, and where it can wait. -/
namespace LanguageServer.Server.Guard

open Analyzer Machine

/-- A caller stays with what it was told. -/
def keep (o : Except Failure Unit) : Job Unit := Task.repeatFrom o fun o => .done (.inl o)

theorem keep_injective {o o' : Except Failure Unit} (h : keep o = keep o') : o = o' := by
  unfold keep Task.repeatFrom at h
  injection h

/-- Someone looks after a start, or nobody does. -/
def hold (b : Bool) (s : Server) : Server := { s with starts := { s.starts with isHeld := b } }

def change (b : Bool) : Server → Server := clientLens.modify fun c => { c with isChanging := b }

def mark (id : ChannelId) (b : Bool) : Server → Server :=
  clientLens.modify (Client.updateChannel id fun c => { c with isReaping := b })

/-- A start that came to nothing is remembered. -/
def remember (began : Instant) (o : Except Failure Unit) (s : Server) : Server :=
  match o with
  | .error (.unavailable reason) =>
    { s with starts := { s.starts with failed := some (began, .unavailable reason) } }
  | _ => s

def conclude (began : Instant) : Except Failure Unit → Job (Except Failure Unit)
  | .error (.unavailable reason) => do
    Task.modify (remember began (.error (.unavailable reason)))
    return .error (.unavailable reason)
  | outcome => return outcome

def follow (began : Instant) : StartPlan → Job (Except Failure Unit)
  | .running => return .ok ()
  | .refused f => return .error f
  | .tried => start.bind (conclude began)

/-- What a caller does that nobody keeps from looking after a start. -/
def attempt : Job (Except Failure Unit) := do
  let now ← Task.act (fun now s => (s.time now, s)) .done
  follow now (← Task.update (planStart now))

theorem ensureStarted_eq : ensureStarted = (do
    if ← Task.read (·.client.status.isRunning) then return .ok ()
    Task.exclusive (·.starts.isHeld) hold attempt) := rfl

/-- A caller, before anything else. -/
def call : Job Unit := ensureStarted.bind keep

/-- A caller that has found the process not running, and has yet to decide on a start. -/
def waiting : Job Unit := (Task.exclusive (·.starts.isHeld) hold attempt).bind keep

def abort? : Option TaskId → Job Unit
  | some i => Task.abort i
  | none => return ()

theorem dropReader_eq : dropReader =
    (Task.update fun s => (s.client.reader, { s with client := { s.client with reader := none } })).bind
      abort? := rfl

def giveUp (f : Failure) : Job (Except Failure Unit) := do
  dropReader
  onClient fun c => { c with current := none, phase := .notStarted }
  return .error (.unavailable ("no health response: " ++ f.message))

/-- What a start does with the first answer of the process. -/
def accept (id : ChannelId) : Except Failure Json → Job (Except Failure Unit)
  | .ok _ => do
    onClient fun c =>
      ({ c with active := some id, phase := .running } : Client).emit (.started (c.channel id).pid)
    return .ok ()
  | .error f => do
    onClient fun c => (c.abandon id).updateChannel id (·.failAll .terminated)
    (kill id).bind fun _ => giveUp f

def probe : Except Failure ChannelId → Job (Except Failure Unit)
  | .error f => do
    onClient fun c => { c with phase := .notStarted }
    return .error (unavailable f)
  | .ok id => do
    let reader ← Task.fork (listen id)
    onClient fun c => { c with reader := some reader }
    let limit ← Task.read (·.configuration.startupLimit)
    (send id .health (.object []) limit).bind (accept id)

/-- A start when nothing of an earlier one is in its way. -/
def launching : Job (Except Failure Unit) := launch.bind probe

def replace : Option ChannelId → Job (Except Failure Unit)
  | some old => do
    onClient (Client.abandon old)
    (kill old).bind fun _ => launching
  | none => launching

def starting : Job (Except Failure Unit) := do
  if ← Task.read fun s => decide (s.client.phase = .running) then return .ok ()
  onClient fun c => { c with phase := .starting }
  dropReader.bind fun _ => takeCurrent.bind replace

theorem start_eq : start = Task.exclusive (·.client.isChanging) change starting := rfl

def ended (c : Channel) : Channel :=
  { c with hasChild := false, link := if c.hasChild then c.link.close none else c.link }

theorem kill_eq (id : ChannelId) : kill id =
    Task.exclusive (fun s => (s.client.channel id).isReaping) (mark id)
      (onClient (Client.updateChannel id ended)) := rfl

def collect? (id : ChannelId) (n : RequestId) (s : Server) : Option (Except Failure Json × Server) :=
  (s.client.fromChannel id (·.collect n)).map fun (o, client) => (o, { s with client })

def answered (id : ChannelId) (n : RequestId) (op : Operation) (limit : Duration) :
    Option (Except Failure Json) → Job (Except Failure Json)
  | some o => return o
  | none => do
    onClient (Client.updateChannel id (·.withdraw n))
    return .error (.timedOut op.method limit)

def posted (id : ChannelId) (op : Operation) (limit : Duration) :
    Except Failure RequestId → Job (Except Failure Json)
  | .error f => return .error f
  | .ok n => (Task.awaitFor limit (collect? id n)).bind (answered id n op limit)

theorem send_eq (id : ChannelId) (op : Operation) (params : Json) (limit : Duration) :
    send id op params limit =
      (Task.update (clientLens.lift fun c => c.post id op params)).bind (posted id op limit) := rfl

/-- Where a start can wait after it has launched the process. -/
inductive Probe where
  | awaiting (id : ChannelId) (n : RequestId) (limit : Duration) (sent : Instant)
  | ending (id : ChannelId) (f : Failure)

def Probe.task : Probe → Job (Except Failure Unit)
  | .awaiting id n limit sent => (Task.awaitedSince limit (collect? id n) sent).bind fun o =>
    (answered id n .health limit o).bind (accept id)
  | .ending id f => (kill id).bind fun _ => giveUp f

/-- A caller inside its start. -/
def within (began : Instant) (t : Job (Except Failure Unit)) : Job Unit :=
  .hold (hold false) (.hold (change false) t (conclude began)) keep

section Reader

def heard? (id : ChannelId) (s : Server) : Option (Link.Heard × Server) :=
  (s.client.fromChannel id fun c => c.link.listen.map fun (heard, link) => (heard, { c with link })).map
    fun (heard, client) => (heard, { s with client })

def hear (id : ChannelId) : Job (Unit ⊕ Unit) := do
  match ← Task.await (heard? id) with
  | .line text =>
    onClient (Client.updateChannel id (·.accept text))
    return .inl ()
  | .ended => return .inr ()

def disconnect (id : ChannelId) (code : Option Int) : Job Unit := onClient (·.disconnect id code)

/-- What a reader does when there is no more to read. -/
def leave (id : ChannelId) : Job Unit := do
  if ← Task.read fun s => (s.client.channel id).isClosing then
    onClient (Client.updateChannel id (·.failAll .terminated))
  else (reap id).bind (disconnect id)

theorem listen_eq (id : ChannelId) :
    listen id = .loop () (fun _ => hear id) fun _ => leave id := rfl

def exit? (id : ChannelId) (s : Server) : Option (Option Int × Server) :=
  (s.client.channel id).link.exit.map fun code => (code, s)

def reaped (id : ChannelId) : Option (Option Int) → Job (Option Int)
  | some code => do
    onClient (Client.updateChannel id fun c => { c with hasChild := false })
    return code
  | none => return none

def reapNow (id : ChannelId) : Job (Option Int) := do
  if ← Task.read fun s => (s.client.channel id).hasChild then
    (Task.awaitFor reapLimit (exit? id)).bind (reaped id)
  else return none

theorem reap_eq (id : ChannelId) : reap id =
    Task.exclusive (fun s => (s.client.channel id).isReaping) (mark id) (reapNow id) := rfl

/-- Where a reader can wait. -/
inductive Reading where
  | next (id : ChannelId)
  | line (id : ChannelId)
  | lock (id : ChannelId)
  | exit (id : ChannelId) (since : Instant)

def Reading.task : Reading → Job Unit
  | .next id => listen id
  | .line id => (hear id).bind (Task.afterRound (fun _ => hear id) fun _ => leave id)
  | .lock id => (reap id).bind (disconnect id)
  | .exit id since => .hold (mark id false)
      ((Task.awaitedSince reapLimit (exit? id) since).bind (reaped id)) (disconnect id)

end Reader

/-- Where a caller, or a reader that a start has sent out, can wait. -/
inductive Station where
  | called
  | waiting
  | trying (began : Instant)
  | clearing (began : Instant) (old : ChannelId)
  | probing (began : Instant) (p : Probe)
  | kept (o : Except Failure Unit)
  | reading (r : Reading)

namespace Station

def task : Station → Job Unit
  | .called => call
  | .waiting => Guard.waiting
  | .trying began => .hold (hold false) (start.bind (conclude began)) keep
  | .clearing began old => within began ((kill old).bind fun _ => launching)
  | .probing began p => within began p.task
  | .kept o => keep o
  | .reading r => r.task

/-- When the start began that a caller looks after. -/
def began? : Station → Option Instant
  | .trying began | .clearing began _ | .probing began _ => some began
  | _ => none

/-- Whether it is the client that a caller keeps others from starting. -/
def isChanging : Station → Bool
  | .clearing _ _ | .probing _ _ => true
  | _ => false

/-- Whether a caller may still launch the process. -/
def isDue : Station → Bool
  | .called | .waiting | .trying _ | .clearing _ _ => true
  | _ => false

/-- Where a decision on a start leaves the caller. -/
def decided (now : Instant) : StartPlan → Station
  | .running => .kept (.ok ())
  | .refused f => .kept (.error f)
  | .tried => .trying now

def rest : Option Station → Job Unit
  | some x => x.task
  | none => .done ()

end Station

/-- The callers and the readers that there are, each with where it waits. -/
abbrev Crew := List (TaskId × Station)

def Crew.tasks (crew : Crew) : List (TaskId × Job Unit) := crew.map fun p => (p.1, p.2.task)

end LanguageServer.Server.Guard

/-! Decisions on a start: what each comes to and on what grounds, and how many of them restart a crashed
process in a stretch of time. -/
namespace LanguageServer.Server.Guard

open Analyzer Machine

section Plans

variable {now : Instant} {s s' : Server} {plan : StartPlan}

/-- No start that failed is remembered for as long as the window. -/
def Forgets (now : Instant) (s : Server) : Prop :=
  ∀ began f, s.starts.failed = some (began, f) → s.configuration.restartWindow ≤ now.since began

def recent (now : Instant) (s : Server) : List Instant :=
  recentRestarts now s.configuration.restartWindow s.starts.restarts

/-- What a decision on a start comes to, and on what grounds. -/
inductive Planned (now : Instant) (s : Server) : StartPlan → Server → Prop
  | running : s.client.status.isRunning = true → Planned now s .running s
  | shut : s.client.status = .stopped ∧ s.isShutDown = true → Planned now s (.refused .terminated) s
  | remembered {began : Instant} {f : Failure} : s.client.status.isRunning = false →
      s.starts.failed = some (began, f) → now.since began < s.configuration.restartWindow →
      Planned now s (.refused f) s
  | exhausted {f : Failure} : s.client.status = .crashed → Forgets now s →
      s.configuration.maxRestarts ≤ (recent now s).length →
      Planned now s (.refused f)
        { s with starts := { s.starts with failed := none, restarts := recent now s } }
  | restarts : s.client.status = .crashed → Forgets now s →
      (recent now s).length < s.configuration.maxRestarts →
      Planned now s .tried
        { s with starts := { s.starts with failed := none, restarts := recent now s ++ [now] } }
  | starts : s.client.status.isRunning = false → s.client.status ≠ .crashed → Forgets now s →
      Planned now s .tried { s with starts := { s.starts with failed := none } }

theorem planned (now : Instant) (s : Server) : Planned now s (planStart now s).1 (planStart now s).2 := by
  unfold planStart
  dsimp only
  split
  · next hup => exact .running hup
  · next hup =>
    split
    · next hshut => exact .shut hshut
    · split
      · next began f hremembered =>
        obtain ⟨hfailed, hlate⟩ := Option.filter_eq_some_iff.mp hremembered
        exact .remembered (Bool.eq_false_iff.mpr hup) hfailed (of_decide_eq_true hlate)
      · next hnone =>
        have hforgets : Forgets now s := by
          intro began f hf
          have hlate : ¬ now.since began < s.configuration.restartWindow := by
            simpa using Option.filter_eq_none_iff.mp hnone _ hf
          exact Nat.le_of_not_lt hlate
        split
        · next hcrashed =>
          split
          · next hmany => exact .exhausted hcrashed hforgets hmany
          · next hfew => exact .restarts hcrashed hforgets (Nat.lt_of_not_le hfew)
        · next hcrashed => exact .starts (Bool.eq_false_iff.mpr hup) hcrashed hforgets

theorem not_running (h : s.client.status.isRunning = false) : s.client.phase ≠ .running := by
  intro hphase
  unfold Client.status at h
  rw [hphase] at h
  dsimp only at h
  split at h <;> cases h

/-- What a decision on a start leaves as it is. -/
theorem Planned.frame (h : Planned now s plan s') :
    s'.configuration = s.configuration ∧ s'.around = s.around ∧ s'.client = s.client ∧
      s'.starts.isHeld = s.starts.isHeld := by
  cases h <;> exact ⟨rfl, rfl, rfl, rfl⟩

theorem Planned.down (h : Planned now s .tried s') : s.client.phase ≠ .running := by
  cases h with
  | restarts hcrashed =>
    refine not_running ?_
    rw [hcrashed]
    rfl
  | starts hdown => exact not_running hdown

theorem Planned.forgets (h : Planned now s .tried s') : Forgets now s := by
  cases h with
  | restarts _ hforgets => exact hforgets
  | starts _ _ hforgets => exact hforgets

/-- Who looks after a start has no part in a decision. -/
theorem planStart_hold (now : Instant) (b : Bool) (s : Server) :
    planStart now (hold b s) = ((planStart now s).1, hold b (planStart now s).2) := by
  unfold planStart hold
  dsimp only
  split
  · rfl
  · split
    · rfl
    · split
      · rfl
      · split
        · split <;> rfl
        · rfl

def isTried : StartPlan → Bool
  | .tried => true
  | _ => false

end Plans

section Windows

variable {now t : Instant} {window : Duration} {restarts : List Instant}

/-- A point in time lies in the half-open window that begins at `first`. -/
def Within (first : Instant) (window : Duration) (t : Instant) : Prop :=
  first ≤ t ∧ t < first.after window

theorem since_le_iff (h : t ≤ now) : window ≤ now.since t ↔ t.after window ≤ now := by
  have h : t.nanos ≤ now.nanos := h
  show window.nanos ≤ now.nanos - t.nanos ↔ t.nanos + window.nanos ≤ now.nanos
  omega

/-- In order of time, what has not left the window is what is left of the restarts. -/
theorem recentRestarts_eq_filter (hsorted : restarts.Pairwise (· ≤ ·))
    (hpast : ∀ t ∈ restarts, t ≤ now) :
    recentRestarts now window restarts = restarts.filter fun t => decide (now < t.after window) := by
  induction restarts with
  | nil => rfl
  | cons t rest ih =>
    obtain ⟨hfirst, hrest⟩ := List.pairwise_cons.mp hsorted
    have hle : window ≤ now.since t ↔ t.after window ≤ now :=
      since_le_iff (hpast t List.mem_cons_self)
    rw [recentRestarts, List.dropWhile_cons]
    by_cases hgone : window ≤ now.since t
    · have hout : ¬ now < t.after window := Nat.not_lt.mpr (hle.mp hgone)
      rw [if_pos (decide_eq_true hgone), List.filter_cons_of_neg (by simpa using hout)]
      exact ih hrest fun u hu => hpast u (List.mem_cons_of_mem t hu)
    · have hin : now < t.after window := Nat.lt_of_not_le fun h => hgone (hle.mpr h)
      have hall : ∀ u ∈ t :: rest, now < u.after window := by
        intro u hu
        obtain rfl | hu := List.mem_cons.mp hu
        · exact hin
        · exact Nat.lt_of_lt_of_le hin (Nat.add_le_add_right (hfirst u hu) _)
      rw [if_neg (by simpa using hgone), List.filter_eq_self.mpr fun u hu => decide_eq_true (hall u hu)]

theorem countP_recentRestarts (hsorted : restarts.Pairwise (· ≤ ·)) (hpast : ∀ t ∈ restarts, t ≤ now)
    {later : Instant} (hlater : now ≤ later) :
    (recentRestarts now window restarts).countP (fun t => decide (later < t.after window)) =
      restarts.countP fun t => decide (later < t.after window) := by
  rw [recentRestarts_eq_filter hsorted hpast, List.countP_filter]
  refine List.countP_congr fun t _ => ?_
  simp only [Bool.and_eq_true, decide_eq_true_eq, and_iff_left_iff_imp]
  exact Nat.lt_of_le_of_lt hlater

end Windows

section Turns

/-- One of the crew makes a move, in a machine as it is before. -/
structure Turn where
  who : TaskId
  before : Machine Server

namespace Turn

/-- The time by which a decision made in this turn goes. -/
def time (t : Turn) : Instant := t.before.state.time t.before.now

/-- What a decision on a start comes to in this turn. -/
def plan (t : Turn) : StartPlan := (planStart t.time t.before.state).1

/-- A caller decides on a start: it has found the process not running, and nobody keeps it from going
on. -/
def IsDecision (t : Turn) : Prop := t.before.tasks.lookup t.who = some waiting

def IsStart (t : Turn) : Prop := t.IsDecision ∧ t.plan = .tried

/-- A caller begins a start because the process has crashed. -/
def IsRestart (t : Turn) : Prop := t.IsStart ∧ t.before.state.client.status = .crashed

end Turn

open Classical in
/-- How many turns of a history are of a kind. -/
noncomputable def count (P : Turn → Prop) (h : List Turn) : Nat := h.countP fun t => decide (P t)

variable {P Q : Turn → Prop} {h : List Turn} {t : Turn}

theorem count_cons_of_pos (ht : P t) : count P (t :: h) = count P h + 1 :=
  List.countP_cons_of_pos (by simpa using ht)

theorem count_cons_of_neg (ht : ¬ P t) : count P (t :: h) = count P h :=
  List.countP_cons_of_neg (by simpa using ht)

theorem count_mono (hPQ : ∀ t, P t → Q t) : count P h ≤ count Q h :=
  List.countP_mono_left fun t _ ht => by simpa using hPQ t (by simpa using ht)

/-- The restarts that are remembered are those of the history that have not left the window, and no
window holds more of them than it may. -/
structure Counted (window : Duration) (most : Nat) (h : List Turn) (restarts : List Instant)
    (now : Instant) : Prop where
  sorted : restarts.Pairwise (· ≤ ·)
  past : ∀ t ∈ restarts, t ≤ now
  recent : ∀ later, now ≤ later → count (fun t => t.IsRestart ∧ later < t.time.after window) h =
    restarts.countP fun t => decide (later < t.after window)
  bounded : ∀ first, count (fun t => t.IsRestart ∧ Within first window t.time) h ≤ most

namespace Counted

variable {window : Duration} {most : Nat} {restarts : List Instant} {now : Instant}

theorem nil : Counted window most [] [] now := ⟨.nil, nofun, fun _ _ => rfl, fun _ => Nat.zero_le _⟩

theorem later (hc : Counted window most h restarts now) {u : Instant} (hlater : now ≤ u) :
    Counted window most h restarts u where
  sorted := hc.sorted
  past t ht := Nat.le_trans (hc.past t ht) hlater
  recent v hv := hc.recent v (Nat.le_trans hlater hv)
  bounded := hc.bounded

theorem forget (hc : Counted window most h restarts now) :
    Counted window most h (recentRestarts now window restarts) now where
  sorted := hc.sorted.sublist (List.dropWhile_sublist _)
  past t ht := hc.past t ((List.dropWhile_sublist _).subset ht)
  recent u hu := (hc.recent u hu).trans (countP_recentRestarts hc.sorted hc.past hu).symm
  bounded := hc.bounded

/-- What is left of the restarts are those of the last window. -/
theorem length_recent (hc : Counted window most h restarts now) :
    (recentRestarts now window restarts).length =
      count (fun t => t.IsRestart ∧ now < t.time.after window) h := by
  rw [hc.recent now (Nat.le_refl _), recentRestarts_eq_filter hc.sorted hc.past,
    List.countP_eq_length_filter]

theorem other (hc : Counted window most h restarts now) (ht : ¬ t.IsRestart) :
    Counted window most (t :: h) restarts now where
  sorted := hc.sorted
  past := hc.past
  recent u hu := (count_cons_of_neg fun h => ht h.1).trans (hc.recent u hu)
  bounded first := Nat.le_trans (Nat.le_of_eq (count_cons_of_neg fun h => ht h.1)) (hc.bounded first)

/-- One more restart, when there are fewer in the last window than there may be. -/
theorem restart (hc : Counted window most h restarts now) (ht : t.IsRestart) (htime : t.time = now)
    (hfew : (recentRestarts now window restarts).length < most) :
    Counted window most (t :: h) (recentRestarts now window restarts ++ [now]) now where
  sorted := by
    refine List.pairwise_append.mpr ⟨hc.forget.sorted, List.pairwise_singleton _ _, fun u hu v hv => ?_⟩
    rw [List.mem_singleton.mp hv]
    exact hc.forget.past u hu
  past u hu := by
    obtain hu | hu := List.mem_append.mp hu
    · exact hc.forget.past u hu
    · exact Nat.le_of_eq (congrArg Instant.nanos (List.mem_singleton.mp hu))
  recent u hu := by
    rw [List.countP_append, ← hc.forget.recent u hu, List.countP_singleton]
    by_cases hin : u < now.after window
    · rw [count_cons_of_pos ⟨ht, htime ▸ hin⟩, if_pos (decide_eq_true hin)]
    · rw [count_cons_of_neg fun h => hin (htime ▸ h.2), if_neg (by simpa using hin)]
      rfl
  bounded first := by
    -- what lies in a window with the new restart has not left the one that ends with it
    by_cases hin : Within first window now
    · rw [count_cons_of_pos ⟨ht, htime ▸ hin⟩]
      refine Nat.lt_of_le_of_lt (count_mono fun u hu => ⟨hu.1, ?_⟩) (hc.length_recent ▸ hfew)
      exact Nat.lt_of_lt_of_le hin.2 (Nat.add_le_add_right hu.2.1 _)
    · rw [count_cons_of_neg fun h => hin (htime ▸ h.2)]
      exact hc.bounded first

end Counted

end Turns

end LanguageServer.Server.Guard
