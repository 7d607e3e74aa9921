import LanguageServer.Proofs.Server.CallerLog

/-! Calls of a start, and the readers that they send out: where each waits, and what one move makes of it
and of the server. -/
namespace LanguageServer.Server.Startups

open Analyzer Machine
open Guard (keep change Probe Reading Stays Clears starting launching unread up clear)

/-- A call of a start. What it is told it keeps. -/
def calling : Job Unit := start.bind keep

/-- A call that makes a startup. -/
def inside (t : Job (Except Failure Unit)) : Job Unit := .hold (change false) t keep

/-- Where a call waits, or a reader that one has sent out. -/
inductive Place where
  | queued
  | clearing (old : ChannelId)
  | probing (p : Probe)
  | told (o : Except Failure Unit)
  | reading (r : Reading)

namespace Place

def task : Place → Job Unit
  | .queued => calling
  | .clearing old => inside ((kill old).bind fun _ => launching)
  | .probing p => inside p.task
  | .told o => keep o
  | .reading r => r.task

/-- Whether a startup is under way there. -/
def isInside : Place → Bool
  | .clearing _ | .probing _ => true
  | _ => false

/-- Whether a call has launched a process that has yet to answer. -/
def isProbing : Place → Bool
  | .probing _ => true
  | _ => false

/-- Whether a call may still launch a process. -/
def isDue : Place → Bool
  | .queued | .clearing _ => true
  | _ => false

/-- How many moves a call makes at most before it is told. -/
def left : Place → Nat
  | .queued => 4
  | .clearing _ => 3
  | .probing p => p.left
  | .told _ | .reading _ => 0

theorem left_pos {x : Place} (h : x.isInside = true) : 0 < x.left := by
  cases x with
  | clearing => exact Nat.succ_pos 2
  | probing p => cases p <;> exact Nat.succ_pos _
  | _ => cases h

def rest : Option Place → Job Unit
  | some x => x.task
  | none => .done ()

theorem isDone_task (x : Place) : isDone x.task = false := by
  cases x with
  | reading r => cases r <;> rfl
  | _ => rfl

/-- Nobody waits like a call that has been told, but such calls. -/
theorem eq_told {x : Place} {o : Except Failure Unit} (h : x.task = keep o) : x = .told o := by
  unfold keep Task.repeatFrom at h
  cases x with
  | told o' => rw [Guard.keep_injective h]
  | reading r =>
    cases r with
    | next id =>
      -- a reader repeats itself without an outcome, and there is more than one outcome
      rw [task, Reading.task, Guard.listen_eq] at h
      injection h with _ houtcome
      have hall : ∀ a b : Except Failure Unit, a = b := houtcome ▸ fun _ _ => rfl
      cases hall (.ok ()) (.error .terminated)
    | line | lock | exit => cases h
  | queued | clearing | probing => cases h

/-- Whether a reader can go on has nothing to do with whether startups are kept from being made. -/
theorem isSome_resume_reading (r : Reading) (b : Bool) (s : Server) (h : Guard.waits r.task = true) :
    (resume ⟨0⟩ r.task ⟨change b s, 0, [], []⟩).isSome = (resume ⟨0⟩ r.task ⟨s, 0, [], []⟩).isSome := by
  cases r with
  | next id => cases h
  | line id =>
    have hline (s : Server) :
        (resume ⟨0⟩ (Reading.line id).task ⟨s, 0, [], []⟩).isSome = (Guard.heard? id s).isSome :=
      Option.isSome_map
    simp only [hline, Guard.heard?, Client.fromChannel, Option.isSome_map]
    rfl
  | lock id =>
    have hlock (s : Server) : (resume ⟨0⟩ (Reading.lock id).task ⟨s, 0, [], []⟩).isSome =
        !(s.client.channel id).isReaping := by
      rw [Reading.task, Guard.reap_eq]
      exact isSome_resume_exclusive
    exact (hlock _).trans (hlock s).symm
  | exit id since => cases h

/-- Nobody waits like a call whose turn has not come, but such calls. -/
theorem eq_queued {x : Place} (h : x.task = calling) : x = .queued := by
  have hwaits : Guard.waits x.task = true := h ▸ rfl
  cases x with
  | queued => rfl
  | reading r =>
    let s : Server := .new ⟨.empty, [], .scripted none, [], 0, none⟩ {}
    have hchanging := isSome_resume_reading r true s hwaits
    have h : r.task = calling := h
    rw [h] at hchanging
    cases hchanging
  | clearing | told => cases hwaits
  | probing p => cases hwaits

/-- Nobody but a call that makes a startup waits like one. -/
theorem isInside_of_task {x z : Place} (h : z.task = x.task) (hx : x.isInside = true) :
    z.isInside = true := by
  obtain ⟨t, ht⟩ : ∃ t, x.task = inside t := by
    cases x with
    | clearing | probing => exact ⟨_, rfl⟩
    | _ => cases hx
  rw [ht] at h
  cases z with
  | clearing | probing => rfl
  | reading r =>
    cases r with
    | exit id since =>
      -- the end of a wait for a process leaves it as it is who may make a startup
      rw [task, Reading.task, inside] at h
      injection h with _ _ hrelease
      let s : Server := change true (.new ⟨.empty, [], .scripted none, [], 0, none⟩ {})
      have hchanging := congrArg (fun f => (f s).client.isChanging) hrelease
      cases hchanging
    | next | line | lock => cases h
  | queued | told => cases h

end Place

variable {s s' : Server} {now : Instant} {n : TaskId} {id : ChannelId} {e : Effects Server}

/-- The process is no more up than it was, no other has been launched, and the reader is the same if
there still is one. -/
structure Calm (s s' : Server) : Prop where
  launches : s'.around.launches = s.around.launches
  reader : ∀ i, s'.client.reader = some i → s.client.reader = some i
  phase : s'.client.phase = .running → s.client.phase = .running

theorem Calm.of_stays (h : Stays s s') : Calm s s' :=
  ⟨h.launches, fun _ hi => h.client.reader ▸ hi, h.client.phase⟩

theorem Calm.trans {s'' : Server} (h : Calm s s') (h' : Calm s' s'') : Calm s s'' :=
  ⟨h'.launches.trans h.launches, fun i hi => h.reader i (h'.reader i hi),
    fun hup => h.phase (h'.phase hup)⟩

/-- Nor does it matter whether startups are kept from being made. -/
theorem Calm.change (h : Calm s s') (b : Bool) : Calm s (change b s') := ⟨h.launches, h.reader, h.phase⟩

theorem Calm.of_unread (h : Calm (unread s) s') : Calm s s' :=
  ⟨h.launches, fun i hi => (nomatch h.reader i hi), h.phase⟩

/-- Whoever is dropped leaves everything as it is that startups depend on, but that one who makes a
startup lets the others. -/
theorem Place.calm_release (x : Place) (s : Server) : Calm s (release x.task s) ∧
    (release x.task s).client.isChanging = if x.isInside then false else s.client.isChanging := by
  have hsame : Calm s s := .of_stays (.refl s)
  cases x with
  | queued | told => exact ⟨hsame, rfl⟩
  | clearing => exact ⟨hsame.change false, rfl⟩
  | probing p => cases p <;> exact ⟨hsame.change false, rfl⟩
  | reading r =>
    have hr : Stays s (release r.task s) := (Guard.stays_release r s).1
    exact ⟨.of_stays hr, hr.client.isChanging⟩

/-- Where a startup leaves its call. -/
abbrev through (now : Instant) (r : Effects Server × Job (Except Failure Unit)) :
    Effects Server × Job Unit :=
  past now (change false) keep r

theorem resume_inside (t : Job (Except Failure Unit)) :
    resume now (inside t) e = (resume now t e).map (through now) := resume_hold _

/-- Whoever makes a startup can go on in the end, unless the process that it is to end is waited for. -/
theorem Place.isSome_resume_inside {x : Place} (hx : x.isInside = true) (s : Server) (n : TaskId) :
    ∃ limit : Instant, ∀ now, limit ≤ now → (resume now x.task ⟨s, n, [], []⟩).isSome = true ∨
      ∃ id, (s.client.channel id).isReaping = true := by
  have hkill (id : ChannelId) (k : Unit → Job (Except Failure Unit)) (now : Instant) :
      (resume now (inside ((kill id).bind k)) ⟨s, n, [], []⟩).isSome = true ∨
        ∃ id, (s.client.channel id).isReaping = true := by
    cases hreaping : (s.client.channel id).isReaping with
    | true => exact .inr ⟨id, hreaping⟩
    | false =>
      obtain ⟨s', -, -, hend⟩ := Guard.resume_kill (e := ⟨s, n, [], []⟩) now hreaping k
      rw [resume_inside, hend]
      exact .inl rfl
  cases x with
  | clearing old => exact ⟨⟨0⟩, fun now _ => hkill old _ now⟩
  | probing p =>
    cases p with
    | ending id f => exact ⟨⟨0⟩, fun now _ => hkill id _ now⟩
    | awaiting id k limit sent =>
      refine ⟨sent.after limit, fun now hlate => .inl ?_⟩
      rw [task, resume_inside, Option.isSome_map]
      exact Machine.isSome_resume_late hlate
  | _ => cases hx

theorem through_done (o : Except Failure Unit) :
    through now (e, .done o) = ({ e with state := change false e.state }, keep o) := rfl

theorem through_waiting {t : Job (Except Failure Unit)} (h : isDone t = false) :
    through now (e, t) = (e, inside t) := past_waiting h

theorem resume_calling_changing (h : e.state.client.isChanging = true) :
    resume now calling e = none := by
  rw [calling, Guard.start_eq, resume_exclusive_raised h]

theorem resume_calling (h : s.client.isChanging = false) : resume now calling ⟨s, n, [], []⟩ =
    some (through now (advance now starting ⟨change true s, n, [], []⟩)) := by
  rw [calling, Guard.start_eq, resume_exclusive h]

theorem advance_starting_running (h : e.state.client.phase = .running) :
    advance now starting e = (e, .done (.ok ())) := by
  have hphase : decide (e.state.client.phase = .running) = true := decide_eq_true h
  have hbody : advance now starting e =
      advance now (if decide (e.state.client.phase = .running) then Task.done (.ok ())
        else (onClient fun c => { c with phase := .starting }).bind fun _ =>
          dropReader.bind fun _ => takeCurrent.bind Guard.replace) e := rfl
  rw [hbody, hphase]
  rfl

/-- A process has been launched, and a reader sent to it. -/
structure Sent (s : Server) (reader : TaskId) (s' : Server) : Prop where
  launches : s'.around.launches = s.around.launches + 1
  isChanging : s'.client.isChanging = s.client.isChanging
  reader : s'.client.reader = some reader
  phase : s'.client.phase = .running → s.client.phase = .running

/-- The launcher refuses to launch a process. -/
def Refuses (s : Server) (f : Failure) : Prop :=
  s.around.launcher.launch s.around.files s.around.environment = .error f

theorem advance_launching (now : Instant) (s : Server) (n : TaskId) (c : List TaskId) :
    (∃ f, Refuses s f ∧ advance now launching ⟨s, n, [], c⟩ =
      (⟨{ s with client := { s.client with phase := .notStarted } }, n, [], c⟩,
        .done (.error (unavailable f)))) ∨
    ∃ s' id p, Sent s n s' ∧
      advance now launching ⟨s, n, [], c⟩ = (⟨s', n + 1, [(n, listen id)], c⟩, Probe.task p) := by
  cases hl : s.around.launcher.launch s.around.files s.around.environment with
  | error f => exact .inl ⟨f, hl, Guard.advance_launching_error (e := ⟨s, n, [], c⟩) hl⟩
  | ok l =>
    let enrolled := (Guard.enroll l s).2
    obtain ⟨s', p, hs', hend⟩ := Guard.advance_health now (Guard.enroll l s).1
      s.configuration.startupLimit
      (e := ⟨{ enrolled with client := { enrolled.client with reader := some n } }, n + 1,
        [(n, listen (Guard.enroll l s).1)], c⟩)
    refine .inr ⟨s', _, p, ?_, (Guard.advance_launching_ok (e := ⟨s, n, [], c⟩) hl).trans hend⟩
    exact ⟨hs'.launches, hs'.client.isChanging, hs'.client.reader, hs'.client.phase⟩

/-- A call may ask the launcher: its turn has come and the process is not running, or the process of
before is out of its way. -/
inductive Asks (s : Server) : Place → Prop
  | queued : s.client.isChanging = false → s.client.phase ≠ .running → Asks s .queued
  | clearing (old : ChannelId) : s.client.isChanging = true → Asks s (.clearing old)

/-- What a call or a reader does in one move: where it waits, what it leaves behind, where it waits next
and whom it sends out. -/
inductive Move (n : TaskId) (s : Server) : Place → Effects Server → Option Place → Option Place → Prop
  | shares : s.client.isChanging = false → s.client.phase = .running →
      Move n s .queued ⟨s, n, [], []⟩ (some (.told (.ok ()))) none
  | clears {old : ChannelId} {s' : Server} {c : List TaskId} : Asks s .queued →
      (∀ i ∈ c, s.client.reader = some i) → Calm s s' → s'.client.isChanging = true →
      Move n s .queued ⟨s', n, [], c⟩ (some (.clearing old)) none
  | launches {x : Place} {id : ChannelId} {p : Probe} {s' : Server} {c : List TaskId} : Asks s x →
      (∀ i ∈ c, s.client.reader = some i) → Sent (change true s) n s' →
      Move n s x ⟨s', n + 1, [(n, listen id)], c⟩ (some (.probing p)) (some (.reading (.next id)))
  | refused {x : Place} {f : Failure} {s' : Server} {c : List TaskId} : Asks s x →
      (∀ i ∈ c, s.client.reader = some i) → Refuses s f → Calm s s' → s'.client.phase = .notStarted →
      Move n s x ⟨change false s', n, [], c⟩ (some (.told (.error (unavailable f)))) none
  | probes {p q : Probe} {s' : Server} : q.left < p.left → Calm s s' →
      s'.client.isChanging = s.client.isChanging →
      Move n s (.probing p) ⟨s', n, [], []⟩ (some (.probing q)) none
  | comesUp {p : Probe} {s' : Server} : Calm (up s) s' →
      Move n s (.probing p) ⟨change false s', n, [], []⟩ (some (.told (.ok ()))) none
  | fails {p : Probe} {reason : String} {s' : Server} {c : List TaskId} :
      (∀ i ∈ c, s.client.reader = some i) → Calm s s' →
      Move n s (.probing p) ⟨change false s', n, [], c⟩ (some (.told (.error (.unavailable reason))))
        none
  | stays {o : Except Failure Unit} : Move n s (.told o) ⟨s, n, [], []⟩ (some (.told o)) none
  | reads {r : Reading} {q : Option Reading} {s' : Server} : Calm s s' →
      s'.client.isChanging = s.client.isChanging →
      Move n s (.reading r) ⟨s', n, [], []⟩ (q.map .reading) none

/-- Where a startup goes on to when nothing of an earlier one is in its way. -/
theorem move_launching (now : Instant) (n : TaskId) {x : Place} {s₁ : Server} {c : List TaskId}
    (hx : Asks s x) (hc : ∀ i ∈ c, s.client.reader = some i) (hs : Calm s s₁)
    (hlocked : s₁.client.isChanging = true) (haround : s₁.around = s.around) : ∃ y sent,
      Move n s x (through now (advance now launching ⟨s₁, n, [], c⟩)).1 y sent ∧
      (through now (advance now launching ⟨s₁, n, [], c⟩)).2 = Place.rest y := by
  obtain ⟨f, hf, hend⟩ | ⟨s', id, p, hs', hend⟩ := advance_launching now s₁ n c
  · rw [hend, through_done]
    rw [Refuses, haround] at hf
    exact ⟨_, _, .refused hx hc hf (hs.trans ⟨rfl, fun _ h => h, nofun⟩) rfl, rfl⟩
  · rw [hend, through_waiting (Guard.isDone_probe p)]
    have hsent : Sent (change true s) n s' :=
      ⟨hs'.launches.trans (congrArg (· + 1) hs.launches), hs'.isChanging.trans hlocked, hs'.reader,
        fun hup => hs.phase (hs'.phase hup)⟩
    exact ⟨_, _, .launches (p := p) hx hc hsent, rfl⟩

/-- A call or a reader moves as such a move tells. -/
theorem move_of_resume {x : Place} {r : Effects Server × Job Unit}
    (hlocked : x.isInside = true → s.client.isChanging = true)
    (h : resume now x.task ⟨s, n, [], []⟩ = some r) :
    ∃ y sent, Move n s x r.1 y sent ∧ r.2 = Place.rest y := by
  cases x with
  | queued =>
    cases hchanging : s.client.isChanging with
    | true => cases (resume_calling_changing (e := ⟨s, n, [], []⟩) hchanging).symm.trans h
    | false =>
      obtain rfl := Option.some.inj ((resume_calling hchanging).symm.trans h)
      by_cases hup : s.client.phase = .running
      · rw [advance_starting_running (e := ⟨change true s, n, [], []⟩) hup, through_done]
        have hsame : change false (change true s) = s := by
          show { s with client := { s.client with isChanging := false } } = s
          rw [← hchanging]
        refine ⟨some (.told (.ok ())), none, ?_, rfl⟩
        dsimp only
        rw [hsame]
        exact .shares hchanging hup
      · -- the process is down and nobody else changes it, so this call makes the startup
        have hasks : Asks s .queued := .queued hchanging hup
        have hclear : Calm s (clear (change true s)) := ⟨rfl, nofun, nofun⟩
        have hreader : ∀ i ∈ (change true s).client.reader.toList, s.client.reader = some i :=
          fun i hi => Option.mem_toList.mp hi
        have hstart := Guard.advance_starting (s := change true s) now n hup
        cases hcurrent : (change true s).client.current with
        | some old =>
          rw [hcurrent] at hstart
          rw [hstart]
          have habandoned := Clears.updateChannel (c := (clear (change true s)).client) old
            (f := fun c => { c with isClosing := true }) fun _ h => h
          have hcalm := hclear.trans (.of_stays habandoned.stays)
          exact ⟨some (.clearing old), none, .clears hasks hreader hcalm rfl, rfl⟩
        | none =>
          rw [hcurrent] at hstart
          rw [hstart]
          exact move_launching now n hasks hreader hclear rfl rfl
  | clearing old =>
    rw [Place.task, resume_inside] at h
    cases hreaping : (s.client.channel old).isReaping with
    | true =>
      rw [Guard.resume_kill_reaping (e := ⟨s, n, [], []⟩) hreaping] at h
      cases h
    | false =>
      obtain ⟨s₁, hs₁, haround, hkill⟩ := Guard.resume_kill (e := ⟨s, n, [], []⟩) now hreaping
        fun _ => launching
      obtain rfl := Option.some.inj ((congrArg (Option.map (through now)) hkill).symm.trans h)
      have hlocked := hlocked rfl
      exact move_launching now n (.clearing old hlocked) nofun (.of_stays hs₁)
        (hs₁.client.isChanging.trans hlocked) haround
  | probing p =>
    rw [Place.task, resume_inside] at h
    obtain ⟨r₁, hprobe, rfl⟩ := Option.map_eq_some_iff.mp h
    obtain ⟨s', q, hq, hs', rfl⟩ | ⟨s', hs', rfl⟩ | ⟨s', reason, hs', rfl⟩ := Guard.resume_probe hprobe
    · rw [through_waiting (Guard.isDone_probe q)]
      exact ⟨_, _, .probes hq (.of_stays hs') hs'.client.isChanging, rfl⟩
    · rw [through_done]
      exact ⟨_, _, .comesUp (.of_stays hs'), rfl⟩
    · rw [through_done]
      exact ⟨_, _, .fails (fun i hi => Option.mem_toList.mp hi) (Calm.of_stays hs').of_unread, rfl⟩
  | told o =>
    obtain rfl := Option.some.inj h
    exact ⟨some (.told o), _, .stays, rfl⟩
  | reading r =>
    obtain ⟨s', q, hs', rfl⟩ := Guard.resume_reading h
    obtain ⟨-, -, hlaunches, -, hchanging, hreader, hphase⟩ := hs'.frame
    refine ⟨q.map .reading, _, .reads ⟨hlaunches, fun i hi => hreader ▸ hi, hphase⟩ hchanging, ?_⟩
    cases q <;> rfl

namespace Move

variable {x : Place} {y sent : Option Place}

theorem spawned (h : Move n s x e y sent) : e.spawned = (sent.map fun z => (n, z.task)).toList := by
  cases h <;> rfl

theorem next (h : Move n s x e y sent) : e.next = if sent.isSome then n + 1 else n := by
  cases h <;> rfl

/-- Whoever is sent out is a reader. -/
theorem sent_reading (h : Move n s x e y sent) {z : Place} (hz : sent = some z) :
    ∃ r, z = .reading r := by
  cases h <;> cases hz
  exact ⟨_, rfl⟩

/-- A reader stays one. -/
theorem reading (h : Move n s x e y sent) {r : Reading} (hx : x = .reading r) {z : Place}
    (hz : y = some z) : ∃ q, z = .reading q := by
  cases h with
  | reads =>
    obtain ⟨q, -, rfl⟩ := Option.map_eq_some_iff.mp hz
    exact ⟨q, rfl⟩
  | launches hasks | refused hasks => cases hasks <;> cases hx
  | _ => cases hx

/-- Nobody is dropped but the reader. -/
theorem cancelled (h : Move n s x e y sent) : ∀ i ∈ e.cancelled, s.client.reader = some i := by
  cases h with
  | clears _ hc | launches _ hc | refused _ hc | fails hc => exact hc
  | _ => exact nofun

theorem cancelled_reading (h : Move n s x e y sent) {r : Reading} (hx : x = .reading r) :
    e.cancelled = [] := by
  cases h with
  | reads => rfl
  | launches hasks | refused hasks => cases hasks <;> cases hx
  | _ => cases hx

theorem reader (h : Move n s x e y sent) {i : TaskId} (hi : e.state.client.reader = some i) :
    s.client.reader = some i ∨ i = n ∧ sent.isSome = true := by
  cases h with
  | shares | stays => exact .inl hi
  | launches _ _ hs => exact .inr ⟨(Option.some.inj (hs.reader.symm.trans hi)).symm, rfl⟩
  | clears _ _ hs | refused _ _ _ hs | probes _ hs | comesUp hs | fails _ hs | reads hs =>
    exact .inl (hs.reader i hi)

/-- Either it is left as it is who makes a startup, or the one that moves has the say on it. -/
theorem lock (h : Move n s x e y sent) :
    (e.state.client.isChanging = s.client.isChanging ∧ (y.any Place.isInside) = x.isInside) ∨
      (x.isInside = true ∨ s.client.isChanging = false) ∧
        e.state.client.isChanging = y.any Place.isInside := by
  cases h with
  | shares | stays => exact .inl ⟨rfl, rfl⟩
  | clears hasks _ _ hlocked =>
    cases hasks with
    | queued hfree => exact .inr ⟨.inr hfree, hlocked⟩
  | launches hasks _ hs =>
    cases hasks with
    | queued hfree => exact .inr ⟨.inr hfree, hs.isChanging⟩
    | clearing => exact .inr ⟨.inl rfl, hs.isChanging⟩
  | refused hasks =>
    cases hasks with
    | queued hfree => exact .inr ⟨.inr hfree, rfl⟩
    | clearing => exact .inr ⟨.inl rfl, rfl⟩
  | probes _ _ hsame => exact .inl ⟨hsame, rfl⟩
  | comesUp | fails => exact .inr ⟨.inl rfl, rfl⟩
  | @reads r q _ _ hsame => exact .inl ⟨hsame, by cases q <;> rfl⟩

/-- The process comes up by a startup alone, and a startup begins only while it is down. -/
theorem phase (h : Move n s x e y sent) :
    (e.state.client.phase = .running →
      s.client.phase = .running ∨ ∃ p, x = .probing p ∧ y = some (.told (.ok ()))) ∧
      (y.any Place.isInside = true → x.isInside = true ∨ s.client.phase ≠ .running) := by
  cases h with
  | shares | stays => exact ⟨.inl, nofun⟩
  | clears hasks _ hs =>
    cases hasks with
    | queued _ hdown => exact ⟨fun hup => .inl (hs.phase hup), fun _ => .inr hdown⟩
  | launches hasks _ hs =>
    refine ⟨fun hup => .inl (hs.phase hup), fun _ => ?_⟩
    cases hasks with
    | queued _ hdown => exact .inr hdown
    | clearing => exact .inl rfl
  | refused _ _ _ hs => exact ⟨fun hup => .inl (hs.phase hup), nofun⟩
  | probes _ hs => exact ⟨fun hup => .inl (hs.phase hup), fun _ => .inl rfl⟩
  | comesUp => exact ⟨fun _ => .inr ⟨_, rfl, rfl⟩, nofun⟩
  | fails _ hs => exact ⟨fun hup => .inl (hs.phase hup), nofun⟩
  | @reads r q _ hs =>
    refine ⟨fun hup => .inl (hs.phase hup), fun hin => ?_⟩
    cases q <;> cases hin

/-- Whoever launches a process was still to do so and probes it then; nobody else comes to probe one. -/
theorem launch (h : Move n s x e y sent) :
    (e.state.around.launches = s.around.launches ∧
      (y.any Place.isDue = true → x.isDue = true) ∧
      (y.any Place.isProbing = true → x.isProbing = true)) ∨
    e.state.around.launches = s.around.launches + 1 ∧ x.isDue = true ∧ y.any Place.isProbing = true ∧
      y.any Place.isDue = false := by
  cases h with
  | shares | stays => exact .inl ⟨rfl, nofun, nofun⟩
  | clears _ _ hs => exact .inl ⟨hs.launches, fun _ => rfl, nofun⟩
  | launches hasks _ hs =>
    refine .inr ⟨hs.launches, ?_, rfl, rfl⟩
    cases hasks <;> rfl
  | refused _ _ _ hs => exact .inl ⟨hs.launches, nofun, nofun⟩
  | probes _ hs => exact .inl ⟨hs.launches, nofun, fun _ => rfl⟩
  | comesUp hs => exact .inl ⟨hs.launches, nofun, nofun⟩
  | fails _ hs => exact .inl ⟨hs.launches, nofun, nofun⟩
  | @reads r q _ hs => exact .inl ⟨hs.launches, by cases q <;> exact nofun, by cases q <;> exact nofun⟩

/-- A move brings a call nearer to its outcome. -/
theorem left (h : Move n s x e y sent) {z : Place} (hz : y = some z) : z.left = 0 ∨ z.left < x.left := by
  cases h with
  | shares | refused | comesUp | fails | stays =>
    cases hz
    exact .inl rfl
  | clears =>
    cases hz
    exact .inr (Nat.lt_succ_self 3)
  | @launches _ _ p _ _ hasks =>
    cases hz
    have hp : p.left ≤ 2 := by
      cases p
      · exact Nat.le_refl 2
      · exact Nat.le_succ 1
    refine .inr (Nat.lt_of_le_of_lt hp ?_)
    cases hasks with
    | queued => exact (by decide : 2 < 4)
    | clearing => exact Nat.lt_succ_self 2
  | probes hq =>
    cases hz
    exact .inr hq
  | reads =>
    obtain ⟨q, -, rfl⟩ := Option.map_eq_some_iff.mp hz
    exact .inl rfl

end Move

end LanguageServer.Server.Startups
