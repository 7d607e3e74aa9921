import LanguageServer.Proofs.Server.Restarts

/-! What one move makes of the callers that have the process started, and of the readers: where each
waits next, and what is different of the server then. -/
namespace LanguageServer.Server.Guard

open Analyzer Machine

/-- Nothing of a client is different that a start depends on. -/
structure Clears (c d : Client) : Prop where
  isChanging : d.isChanging = c.isChanging
  reader : d.reader = c.reader
  phase : d.phase = .running → c.phase = .running
  isReaping : ∀ id, (d.channel id).isReaping = true → (c.channel id).isReaping = true

namespace Clears

variable {c d : Client} {id : ChannelId}

theorem refl (c : Client) : Clears c c := ⟨rfl, rfl, fun h => h, fun _ h => h⟩

theorem trans {e : Client} (h : Clears c d) (h' : Clears d e) : Clears c e :=
  ⟨h'.isChanging.trans h.isChanging, h'.reader.trans h.reader, fun he => h.phase (h'.phase he),
    fun id he => h.isReaping id (h'.isReaping id he)⟩

theorem of_amends {ch : Channel} (h : c.Amends id ch d)
    (hch : ch.isReaping = true → (c.channel id).isReaping = true)
    (hchanging : d.isChanging = c.isChanging) (hreader : d.reader = c.reader)
    (hphase : d.phase = .running → c.phase = .running) : Clears c d := by
  refine ⟨hchanging, hreader, hphase, fun j hj => ?_⟩
  by_cases hjid : j = id
  · subst hjid
    exact hch (h.self ▸ hj)
  · exact h.other j hjid ▸ hj

theorem updateChannel (id : ChannelId) {f : Channel → Channel}
    (hf : ∀ ch, (f ch).isReaping = true → ch.isReaping = true) : Clears c (c.updateChannel id f) :=
  of_amends (c.amends_updateChannel id f) (hf _) rfl rfl fun h => h

theorem disconnect (code : Option Int) : Clears c (c.disconnect id code) := by
  refine of_amends (c.amends_disconnect id code) (fun h => h) ?_ (c.reader_disconnect id code) ?_
  · unfold Client.disconnect
    by_cases h : c.active = some id <;> simp [h, Client.emit, Client.updateChannel]
  · unfold Client.disconnect
    by_cases h : c.active = some id <;> simp [h, Client.emit, Client.updateChannel]

theorem fromChannel {α : Type} {f : Channel → Option (α × Channel)} {a : α}
    (hf : ∀ ch a ch', f ch = some (a, ch') → ch'.isReaping = ch.isReaping)
    (h : c.fromChannel id f = some (a, d)) : Clears c d := by
  obtain ⟨⟨a, ch⟩, hch, heq⟩ := Option.map_eq_some_iff.mp h
  cases heq
  refine of_amends (c.amends_updateChannel id _) (fun hreaping => ?_) rfl rfl fun h => h
  exact hf _ _ _ hch ▸ hreaping

theorem post (id : ChannelId) (op : Operation) (params : Json) : Clears c (c.post id op params).2 := by
  have hcounted : Clears c { c with nextRequest := c.nextRequest + 1 } :=
    ⟨rfl, rfl, fun h => h, fun _ h => h⟩
  rcases hpost : c.post id op params with ⟨_ | n, d⟩
  · obtain ⟨rfl, -⟩ := Client.post_error hpost
    exact hcounted
  · obtain ⟨-, link, rfl⟩ := Client.post_ok hpost
    exact hcounted.trans (updateChannel id (f := fun ch => { ch with link, pending := ch.pending ++ [n] })
      fun _ h => h)

end Clears

/-- Nothing is different that a start depends on: the process is no more up than it was, and nobody more
waits for the end of one. -/
structure Stays (s s' : Server) : Prop where
  configuration : s'.configuration = s.configuration
  starts : s'.starts = s.starts
  launches : s'.around.launches = s.around.launches
  clock : s'.around.clock = s.around.clock
  client : Clears s.client s'.client

variable {s s' : Server} {now began : Instant} {n : TaskId} {id : ChannelId} {e : Effects Server}

theorem Stays.refl (s : Server) : Stays s s := ⟨rfl, rfl, rfl, rfl, .refl _⟩

theorem Stays.trans {s'' : Server} (h : Stays s s') (h' : Stays s' s'') : Stays s s'' where
  configuration := h'.configuration.trans h.configuration
  starts := h'.starts.trans h.starts
  launches := h'.launches.trans h.launches
  clock := h'.clock.trans h.clock
  client := h.client.trans h'.client

theorem Clears.stays {c : Client} (h : Clears s.client c) : Stays s { s with client := c } :=
  ⟨rfl, rfl, rfl, rfl, h⟩

/-- The process is up. -/
def up (s : Server) : Server := { s with client := { s.client with phase := .running } }

/-- There is no reader. -/
def unread (s : Server) : Server := { s with client := { s.client with reader := none } }

theorem Stays.unread (h : Stays s s') : Stays (unread s) (unread s') :=
  ⟨h.configuration, h.starts, h.launches, h.clock, h.client.isChanging, rfl, h.client.phase,
    h.client.isReaping⟩

theorem Stays.up (h : Stays s s') : Stays (up s) (up s') :=
  ⟨h.configuration, h.starts, h.launches, h.clock, h.client.isChanging, h.client.reader, fun h => h,
    h.client.isReaping⟩

theorem isReaping_mark (s : Server) (id j : ChannelId) (b : Bool) :
    ((mark id b s).client.channel j).isReaping =
      if j = id then b else (s.client.channel j).isReaping := by
  have hmark := s.client.amends_updateChannel id fun c => { c with isReaping := b }
  show ((s.client.updateChannel id fun c => { c with isReaping := b }).channel j).isReaping = _
  split
  · next h => rw [h, hmark.self]
  · next h => rw [hmark.other j h]

theorem Stays.mark (h : Stays s s') (id : ChannelId) (b : Bool) :
    Stays (mark id b s) (mark id b s') where
  configuration := h.configuration
  starts := h.starts
  launches := h.launches
  clock := h.clock
  client.isChanging := h.client.isChanging
  client.reader := h.client.reader
  client.phase := h.client.phase
  client.isReaping j hj := by
    rw [isReaping_mark] at hj ⊢
    split at hj
    · next hid => rw [if_pos hid, hj]
    · next hid => rw [if_neg hid, h.client.isReaping j hj]

/-- Waiting for the end of a process comes to an end itself. -/
theorem Stays.unmark (h : Stays (Guard.mark id true s) s') : Stays s (Guard.mark id false s') where
  configuration := h.configuration
  starts := h.starts
  launches := h.launches
  clock := h.clock
  client.isChanging := h.client.isChanging
  client.reader := h.client.reader
  client.phase := h.client.phase
  client.isReaping j hj := by
    rw [isReaping_mark] at hj
    split at hj
    · cases hj
    · next hid =>
      have hmarked := h.client.isReaping j hj
      rwa [isReaping_mark, if_neg hid] at hmarked

/-- Where a start leaves its caller. -/
def through (now began : Instant) (r : Effects Server × Job (Except Failure Unit)) :
    Effects Server × Job Unit :=
  past now (hold false) keep (past now (change false) (conclude began) r)

theorem resume_within (t : Job (Except Failure Unit)) :
    resume now (within began t) e = (resume now t e).map (through now began) := by
  rw [within, resume_hold, resume_hold, Option.map_map]
  rfl

theorem through_done (o : Except Failure Unit) : through now began (e, .done o) =
    ({ e with state := hold false (remember began o (change false e.state)) }, keep o) := by
  cases o with
  | error f => cases f <;> rfl
  | ok _ => rfl

theorem through_waiting {t : Job (Except Failure Unit)} (h : isDone t = false) :
    through now began (e, t) = (e, within began t) := by
  rw [through, past_waiting h]
  rfl

theorem resume_call : resume now call ⟨s, n, [], []⟩ =
    some (⟨s, n, [], []⟩, if s.client.status.isRunning then keep (.ok ()) else waiting) := by
  cases h : s.client.status.isRunning with
  | true => simp [call, ensureStarted_eq, Task.read, bind, Task.bind, resume, advance, h, pure, keep,
    Task.repeatFrom]
  | false => simp [call, ensureStarted_eq, Task.read, bind, Task.bind, resume, advance, h, pure, keep,
    Task.repeatFrom, waiting, Task.exclusive, Task.waitFor, Task.await]

theorem resume_waiting_held (h : s.starts.isHeld = true) : resume now waiting ⟨s, n, [], []⟩ = none :=
  resume_exclusive_raised h

theorem advance_attempt : advance now attempt ⟨s, n, [], []⟩ =
    advance now (follow (s.time now) (planStart (s.time now) s).1)
      ⟨(planStart (s.time now) s).2, n, [], []⟩ := rfl

theorem resume_waiting (h : s.starts.isHeld = false) {plan : StartPlan}
    (hp : planStart (s.time now) s = (plan, s')) :
    resume now waiting ⟨s, n, [], []⟩ =
      some (⟨hold (isTried plan) s', n, [], []⟩, (Station.decided (s.time now) plan).task) := by
  have htime : (hold true s).time now = s.time now := rfl
  rw [waiting, resume_exclusive h, advance_attempt, htime, planStart_hold, hp]
  cases plan <;> rfl

theorem resume_trying_changing (h : s.client.isChanging = true) :
    resume now (Station.trying began).task ⟨s, n, [], []⟩ = none := by
  rw [Station.task, resume_hold, start_eq, resume_exclusive_raised h]
  rfl

theorem resume_trying (h : s.client.isChanging = false) :
    resume now (Station.trying began).task ⟨s, n, [], []⟩ =
      some (through now began (advance now starting ⟨change true s, n, [], []⟩)) := by
  rw [Station.task, resume_hold, start_eq, resume_exclusive h]
  rfl

theorem advance_dropReader (now : Instant) (s : Server) (n : TaskId)
    (k : Unit → Job (Except Failure Unit)) :
    advance now (dropReader.bind k) ⟨s, n, [], []⟩ =
      advance now (k ()) ⟨unread s, n, [], s.client.reader.toList⟩ := by
  rw [dropReader_eq]
  show advance now ((abort? s.client.reader).bind k) ⟨unread s, n, [], []⟩ = _
  cases s.client.reader <;> rfl

/-- What a start clears away of an earlier one. -/
def clear (s : Server) : Server :=
  { s with client := { s.client with phase := .starting, reader := none, current := none } }

theorem advance_starting (now : Instant) (n : TaskId) (h : s.client.phase ≠ .running) :
    advance now starting ⟨s, n, [], []⟩ =
      advance now (replace s.client.current) ⟨clear s, n, [], s.client.reader.toList⟩ := by
  have hphase : decide (s.client.phase = .running) = false := decide_eq_false h
  have hbody : advance now starting ⟨s, n, [], []⟩ =
      advance now (if decide (s.client.phase = .running) then Task.done (.ok ())
        else (onClient fun c => { c with phase := .starting }).bind fun _ =>
          dropReader.bind fun _ => takeCurrent.bind replace) ⟨s, n, [], []⟩ := rfl
  rw [hbody, hphase]
  exact advance_dropReader now { s with client := { s.client with phase := .starting } } n _

/-- A process has been launched, and a reader sent to it. -/
structure Launched (s : Server) (reader : TaskId) (s' : Server) : Prop where
  configuration : s'.configuration = s.configuration
  starts : s'.starts = s.starts
  launches : s'.around.launches = s.around.launches + 1
  clock : s'.around.clock = s.around.clock
  reader : s'.client.reader = some reader
  phase : s'.client.phase = .running → s.client.phase = .running
  isReaping : ∀ id, (s'.client.channel id).isReaping = true → (s.client.channel id).isReaping = true

theorem clears_abandon (c : Client) (id : ChannelId) :
    Clears c ((c.abandon id).updateChannel id (·.failAll .terminated)) :=
  (Clears.updateChannel id (f := fun ch => { ch with isClosing := true }) fun _ h => h).trans
    (.updateChannel id fun _ h => h)

theorem advance_accept_error (now : Instant) (id : ChannelId) (f : Failure) : ∃ s', Stays e.state s' ∧
    advance now (accept id (.error f)) e = ({ e with state := s' }, Probe.task (.ending id f)) :=
  ⟨_, (clears_abandon e.state.client id).stays, rfl⟩

theorem advance_health (now : Instant) (id : ChannelId) (limit : Duration) : ∃ s' p, Stays e.state s' ∧
    advance now ((send id .health (.object []) limit).bind (accept id)) e =
      ({ e with state := s' }, Probe.task p) := by
  have hposted := Clears.post (c := e.state.client) id .health (.object [])
  have hsend : advance now ((send id .health (.object []) limit).bind (accept id)) e =
      advance now ((posted id .health limit (e.state.client.post id .health (.object [])).1).bind
        (accept id)) { e with state :=
          { e.state with client := (e.state.client.post id .health (.object [])).2 } } := rfl
  rw [hsend]
  generalize e.state.client.post id .health (.object []) = r at hposted
  obtain ⟨_ | n, d⟩ := r
  · obtain ⟨s', hs', hend⟩ := advance_accept_error now id
      (e := { e with state := { e.state with client := d } }) ‹Failure›
    exact ⟨s', _, hposted.stays.trans hs', hend⟩
  · exact ⟨_, .awaiting id n limit now, hposted.stays, rfl⟩

/-- A process that was launched has a channel. -/
def enroll (l : Launch) (s : Server) : ChannelId × Server :=
  let n := s.around.launches + 1
  let (id, client) := s.client.connect
    (.connect .fresh (some (40000 + n).toUInt32) !l.runtime.isNone)
  (id, { s with
    client
    around := { s.around with launches := n, unattended := s.around.unattended ++ [(id, l)] } })

theorem launched_enroll (l : Launch) (s : Server) (reader : TaskId) : Launched s reader
    { (enroll l s).2 with client := { (enroll l s).2.client with reader := some reader } } := by
  refine ⟨rfl, rfl, rfl, rfl, rfl, fun h => h, fun j hj => ?_⟩
  let ch : Channel := .connect .fresh (some (40000 + (s.around.launches + 1)).toUInt32) !l.runtime.isNone
  have hj : ((({ s.client with channels := s.client.channels.insert s.client.freshId ch } :
    Client)).channel j).isReaping = true := hj
  rw [Client.channel_insert] at hj
  split at hj
  · cases hj
  · exact hj

theorem advance_launching_error {f : Failure}
    (h : e.state.around.launcher.launch e.state.around.files e.state.around.environment = .error f) :
    advance now launching e = advance now (probe (.error f)) e := by
  simp only [launching, launch, Task.update, Task.bind, advance, h]

theorem advance_launching_ok {l : Launch}
    (h : e.state.around.launcher.launch e.state.around.files e.state.around.environment = .ok l) :
    advance now launching e =
      advance now (probe (.ok (enroll l e.state).1)) { e with state := (enroll l e.state).2 } := by
  simp only [launching, launch, Task.update, Task.bind, advance, h]
  rfl

theorem Launched.stays (h : Launched s n s') {s'' : Server} (hs : Stays s' s'') : Launched s n s'' where
  configuration := hs.configuration.trans h.configuration
  starts := hs.starts.trans h.starts
  launches := hs.launches.trans h.launches
  clock := hs.clock.trans h.clock
  reader := hs.client.reader.trans h.reader
  phase hphase := h.phase (hs.client.phase hphase)
  isReaping id hid := h.isReaping id (hs.client.isReaping id hid)

theorem advance_launching (now : Instant) (s : Server) (n : TaskId) (c : List TaskId) :
    (∃ f, s.around.launcher.launch s.around.files s.around.environment = .error f ∧
      advance now launching ⟨s, n, [], c⟩ =
        (⟨{ s with client := { s.client with phase := .notStarted } }, n, [], c⟩,
          .done (.error (unavailable f)))) ∨
    ∃ s' id p, Launched s n s' ∧
      advance now launching ⟨s, n, [], c⟩ = (⟨s', n + 1, [(n, listen id)], c⟩, Probe.task p) := by
  cases hl : s.around.launcher.launch s.around.files s.around.environment with
  | error f =>
    exact .inl ⟨f, rfl, advance_launching_error (e := ⟨s, n, [], c⟩) hl⟩
  | ok l =>
    obtain ⟨s', p, hs', hend⟩ := advance_health now (enroll l s).1 s.configuration.startupLimit
      (e := ⟨{ (enroll l s).2 with client := { (enroll l s).2.client with reader := some n } }, n + 1,
        [(n, listen (enroll l s).1)], c⟩)
    exact .inr ⟨s', (enroll l s).1, p, (launched_enroll l s n).stays hs',
      (advance_launching_ok (e := ⟨s, n, [], c⟩) hl).trans hend⟩

/-- A probe that is not over stays a start that waits. -/
theorem isDone_probe (p : Probe) : isDone p.task = false := by cases p <;> rfl

/-- Whoever ends a process that nobody waits for goes on. -/
theorem resume_kill (now : Instant) (h : (e.state.client.channel id).isReaping = false)
    (k : Unit → Job (Except Failure Unit)) : ∃ s', Stays e.state s' ∧ s'.around = e.state.around ∧
      resume now ((kill id).bind k) e = some (advance now (k ()) { e with state := s' }) := by
  have hended := Clears.updateChannel (c := (mark id true e.state).client) id (f := ended)
    fun _ h => h
  refine ⟨_, hended.stays.unmark, rfl, ?_⟩
  rw [kill_eq]
  exact resume_exclusive h

theorem resume_kill_reaping (h : (e.state.client.channel id).isReaping = true)
    (k : Unit → Job (Except Failure Unit)) : resume now ((kill id).bind k) e = none := by
  rw [kill_eq]
  exact resume_exclusive_raised h

theorem advance_giveUp (now : Instant) (s : Server) (n : TaskId) (f : Failure) : ∃ s' reason,
    Stays (unread s) s' ∧
    advance now (giveUp f) ⟨s, n, [], []⟩ =
      (⟨s', n, [], s.client.reader.toList⟩, .done (.error (.unavailable reason))) := by
  refine ⟨_, _, ?_, advance_dropReader now s n _⟩
  exact ⟨rfl, rfl, rfl, rfl, rfl, rfl, nofun, fun _ h => h⟩

theorem stays_collect {k : RequestId} {o : Except Failure Json} (h : collect? id k s = some (o, s')) :
    Stays s s' := by
  obtain ⟨⟨_, d⟩, hcollect, heq⟩ := Option.map_eq_some_iff.mp h
  cases heq
  refine (Clears.fromChannel (fun ch _ ch' hch => ?_) hcollect).stays
  obtain ⟨_, -, heq⟩ := Option.map_eq_some_iff.mp hch
  cases heq
  rfl

/-- How many moves a start that waits there makes at most. -/
def Probe.left : Probe → Nat
  | .awaiting _ _ _ _ => 2
  | .ending _ _ => 1

theorem resume_probe {p : Probe} {r : Effects Server × Job (Except Failure Unit)}
    (h : resume now p.task ⟨s, n, [], []⟩ = some r) :
    (∃ s' q, q.left < p.left ∧ Stays s s' ∧ r = (⟨s', n, [], []⟩, Probe.task q)) ∨
    (∃ s', Stays (up s) s' ∧ r = (⟨s', n, [], []⟩, .done (.ok ()))) ∨
    ∃ s' reason, Stays (unread s) s' ∧
      r = (⟨s', n, [], s.client.reader.toList⟩, .done (.error (.unavailable reason))) := by
  cases p with
  | awaiting id k limit sent =>
    -- an answer brings the process up, and after a failure it is to be ended
    have haccept (s₁ : Server) (hs₁ : Stays s s₁) (o : Except Failure Json)
        (hr : r = advance now (accept id o) ⟨s₁, n, [], []⟩) :
        (∃ s' q, q.left < (Probe.awaiting id k limit sent).left ∧ Stays s s' ∧
          r = (⟨s', n, [], []⟩, Probe.task q)) ∨
        (∃ s', Stays (up s) s' ∧ r = (⟨s', n, [], []⟩, .done (.ok ()))) := by
      cases o with
      | ok _ =>
        refine .inr ⟨_, hs₁.up.trans ?_, hr⟩
        exact ⟨rfl, rfl, rfl, rfl, rfl, rfl, fun h => h, fun _ h => h⟩
      | error f =>
        obtain ⟨s', hs', hend⟩ := advance_accept_error now id (e := ⟨s₁, n, [], []⟩) f
        exact .inl ⟨s', .ending id f, Nat.lt_succ_self 1, hs₁.trans hs', hr.trans hend⟩
    have hor {P Q R : Prop} (h : P ∨ Q) : P ∨ Q ∨ R := h.imp_right .inl
    obtain ⟨o, s₁, hcollect, hr⟩ | hr := resume_awaitedSince h
    · exact hor (haccept s₁ (stays_collect hcollect) o hr)
    · have hwithdrawn := Clears.updateChannel (c := s.client) id (f := (·.withdraw k)) fun _ h => h
      exact hor (haccept _ hwithdrawn.stays _ hr)
  | ending id f =>
    cases hreaping : (s.client.channel id).isReaping with
    | true =>
      rw [Probe.task, resume_kill_reaping hreaping] at h
      cases h
    | false =>
      obtain ⟨s₁, hs₁, -, hkill⟩ := resume_kill (e := ⟨s, n, [], []⟩) now hreaping
        fun _ => giveUp f
      obtain ⟨s', reason, hs', hend⟩ := advance_giveUp now s₁ n f
      cases h.symm.trans (hkill.trans (congrArg some hend))
      have hreader : s₁.client.reader = s.client.reader := hs₁.client.reader
      exact .inr (.inr ⟨s', reason, hs₁.unread.trans hs', by rw [hreader]⟩)

/-- The channel whose process a reader waits for to end. -/
def Reading.held? : Reading → Option ChannelId
  | .exit id _ => some id
  | _ => none

/-- Whether or not there is a process that is waited for. -/
def mark? (o : Option ChannelId) (b : Bool) (s : Server) : Server :=
  match o with
  | some id => mark id b s
  | none => s

/-- What is left of a reader. -/
def Reading.rest : Option Reading → Job Unit
  | some r => r.task
  | none => .done ()

theorem isReaping_accept (ch : Channel) (text : String) : (ch.accept text).isReaping = ch.isReaping := by
  unfold Channel.accept
  split
  · split
    · unfold Channel.settle
      split <;> rfl
    · rfl
  · rfl

theorem advance_leave (now : Instant) (id : ChannelId) (s : Server) (n : TaskId) : ∃ s' q,
    Stays s s' ∧ q.bind Reading.held? = none ∧ advance now (leave id) ⟨s, n, [], []⟩ = (⟨s', n, [], []⟩, Reading.rest q) := by
  have hleave : advance now (leave id) ⟨s, n, [], []⟩ =
      advance now (if (s.client.channel id).isClosing then
        onClient (Client.updateChannel id (·.failAll .terminated))
        else (reap id).bind (disconnect id)) ⟨s, n, [], []⟩ := rfl
  rw [hleave]
  cases (s.client.channel id).isClosing with
  | true =>
    have hfailed := Clears.updateChannel (c := s.client) id (f := (·.failAll .terminated))
      fun _ h => h
    exact ⟨_, none, hfailed.stays, rfl, rfl⟩
  | false => exact ⟨s, some (.lock id), .refl s, rfl, rfl⟩

theorem advance_reapNow (now : Instant) (id : ChannelId) (s : Server) (n : TaskId) : ∃ s' q,
    Stays (mark? (q.bind Reading.held?) true s) s' ∧ past now (mark id false) (disconnect id)
      (advance now (reapNow id) ⟨mark id true s, n, [], []⟩) = (⟨s', n, [], []⟩, Reading.rest q) := by
  have hreap : advance now (reapNow id) ⟨mark id true s, n, [], []⟩ =
      advance now (if ((mark id true s).client.channel id).hasChild then
        (Task.awaitFor reapLimit (exit? id)).bind (reaped id)
        else .done none) ⟨mark id true s, n, [], []⟩ := rfl
  rw [hreap]
  cases ((mark id true s).client.channel id).hasChild with
  | true => exact ⟨_, some (.exit id now), .refl _, rfl⟩
  | false =>
    have hunmarked := (Stays.refl (mark id true s)).unmark
    exact ⟨_, none, hunmarked.trans (Clears.disconnect none).stays, rfl⟩

theorem resume_reading {r : Reading} {a : Effects Server × Job Unit}
    (h : resume now r.task ⟨s, n, [], []⟩ = some a) :
    ∃ s' q, Stays (mark? (q.bind Reading.held?) true (mark? r.held? false s)) s' ∧
      a = (⟨s', n, [], []⟩, Reading.rest q) := by
  cases r with
  | next id =>
    rw [Reading.task, listen_eq] at h
    exact ⟨s, some (.line id), .refl s, (Option.some.inj h).symm⟩
  | line id =>
    obtain ⟨⟨heard, s₁⟩, hheard, rfl⟩ := Option.map_eq_some_iff.mp h
    have hs₁ : Stays s s₁ := by
      obtain ⟨⟨_, d⟩, hclient, heq⟩ := Option.map_eq_some_iff.mp hheard
      cases heq
      refine (Clears.fromChannel (fun ch _ ch' hch => ?_) hclient).stays
      obtain ⟨_, -, heq⟩ := Option.map_eq_some_iff.mp hch
      cases heq
      rfl
    cases heard with
    | line text =>
      exact ⟨_, some (.next id), hs₁.trans (Clears.updateChannel id fun ch h =>
        isReaping_accept ch text ▸ h).stays, rfl⟩
    | ended =>
      obtain ⟨s', q, hs', hq, hend⟩ := advance_leave now id s₁ n
      refine ⟨s', q, ?_, hend⟩
      rw [hq]
      exact hs₁.trans hs'
  | lock id =>
    cases hreaping : (s.client.channel id).isReaping with
    | true =>
      rw [Reading.task, reap_eq, resume_exclusive_raised hreaping] at h
      cases h
    | false =>
      rw [Reading.task, reap_eq, resume_exclusive hreaping] at h
      obtain ⟨s', q, hs', hend⟩ := advance_reapNow now id s n
      exact ⟨s', q, hs', (Option.some.inj h).symm.trans hend⟩
  | exit id since =>
    rw [Reading.task, resume_hold] at h
    obtain ⟨b, hwait, rfl⟩ := Option.map_eq_some_iff.mp h
    -- the process has exited, or the limit for it has passed
    obtain ⟨code, s₁, hexit, rfl⟩ | rfl := resume_awaitedSince hwait
    · obtain ⟨_, -, heq⟩ := Option.map_eq_some_iff.mp hexit
      cases heq
      have hgone := Clears.updateChannel (c := s.client) id
        (f := fun c => { c with hasChild := false }) fun _ h => h
      exact ⟨_, none, (hgone.stays.mark id false).trans (Clears.disconnect code).stays, rfl⟩
    · exact ⟨_, none, (Clears.disconnect none).stays, rfl⟩

/-- What a caller or a reader does in one move: where it waits, what it leaves behind, where it waits next
and whom it sends out. -/
inductive Stride (now : Instant) (n : TaskId) (s : Server) :
    Station → Effects Server → Option Station → Crew → Prop
  | asks : Stride now n s .called ⟨s, n, [], []⟩
      (some (if s.client.status.isRunning then .kept (.ok ()) else .waiting)) []
  | decides {plan : StartPlan} {s' : Server} : s.starts.isHeld = false →
      planStart (s.time now) s = (plan, s') →
      Stride now n s .waiting ⟨hold (isTried plan) s', n, [], []⟩
        (some (.decided (s.time now) plan)) []
  | clears {began : Instant} {old : ChannelId} {s' : Server} : Stays (unread (change true s)) s' →
      Stride now n s (.trying began) ⟨s', n, [], s.client.reader.toList⟩ (some (.clearing began old)) []
  | launches {x : Station} {began : Instant} {p : Probe} {id : ChannelId} {s' : Server} :
      x.began? = some began → x.isDue = true → Launched s n s' →
      Stride now n s x ⟨s', n + 1, [(n, listen id)], s.client.reader.toList⟩ (some (.probing began p))
        [(n, .reading (.next id))]
  | probes {began : Instant} {p q : Probe} {s' : Server} : Stays s s' →
      Stride now n s (.probing began p) ⟨s', n, [], []⟩ (some (.probing began q)) []
  | comesUp {began : Instant} {p : Probe} {s' : Server} : Stays (up s) s' →
      Stride now n s (.probing began p) ⟨hold false (change false s'), n, [], []⟩
        (some (.kept (.ok ()))) []
  | fails {x : Station} {began : Instant} {b : Bool} {reason : String} {s' : Server} :
      x.began? = some began →
      ((∃ p, x = .probing began p) ∨
        ∃ f, s.around.launcher.launch s.around.files s.around.environment = .error f ∧
          unavailable f = .unavailable reason) →
      Stays (unread (change b s)) s' →
      Stride now n s x
        ⟨hold false (remember began (.error (.unavailable reason)) (change false s')), n, [],
          s.client.reader.toList⟩ (some (.kept (.error (.unavailable reason)))) []
  | stays {o : Except Failure Unit} : Stride now n s (.kept o) ⟨s, n, [], []⟩ (some (.kept o)) []
  | reads {r : Reading} {q : Option Reading} {s' : Server} :
      Stays (mark? (q.bind Reading.held?) true (mark? r.held? false s)) s' →
      Stride now n s (.reading r) ⟨s', n, [], []⟩ (q.map .reading) []

theorem unavailable_eq (f : Failure) : ∃ reason, unavailable f = .unavailable reason := by
  cases f <;> exact ⟨_, rfl⟩

/-- Where a start goes on to when nothing of an earlier one is in its way. -/
theorem stride_launching (now : Instant) (n : TaskId) {x : Station} {b : Bool} {s₁ : Server}
    (hx : x.began? = some began) (hdue : x.isDue = true) (hs : Stays (unread (change b s)) s₁)
    (haround : s₁.around = s.around) : ∃ y fresh,
      Stride now n s x
        (through now began (advance now launching ⟨s₁, n, [], s.client.reader.toList⟩)).1 y fresh ∧
      (through now began (advance now launching ⟨s₁, n, [], s.client.reader.toList⟩)).2 =
        Station.rest y := by
  obtain ⟨f, hf, hend⟩ | ⟨s', id, p, hs', hend⟩ :=
    advance_launching now s₁ n s.client.reader.toList
  · obtain ⟨reason, hreason⟩ := unavailable_eq f
    rw [hend, hreason, through_done]
    rw [haround] at hf
    refine ⟨_, _, .fails hx (.inr ⟨f, hf, hreason⟩) (hs.trans ?_), rfl⟩
    exact ⟨rfl, rfl, rfl, rfl, rfl, rfl, nofun, fun _ h => h⟩
  · rw [hend, through_waiting (isDone_probe p)]
    refine ⟨_, _, .launches (p := p) hx hdue ?_, rfl⟩
    exact ⟨hs'.configuration.trans hs.configuration, hs'.starts.trans hs.starts,
      hs'.launches.trans (congrArg (· + 1) hs.launches), hs'.clock.trans hs.clock, hs'.reader,
      fun h => hs.client.phase (hs'.phase h), fun id h => hs.client.isReaping id (hs'.isReaping id h)⟩

/-- A move of a caller or of a reader is a stride. -/
theorem resume_station {x : Station} {r : Effects Server × Job Unit}
    (hdown : ∀ began, x = .trying began → s.client.phase ≠ .running)
    (hcleared : ∀ began old, x = .clearing began old → s.client.reader = none)
    (h : resume now x.task ⟨s, n, [], []⟩ = some r) :
    ∃ y fresh, Stride now n s x r.1 y fresh ∧ r.2 = Station.rest y := by
  cases x with
  | called =>
    obtain rfl := Option.some.inj (resume_call.symm.trans h)
    refine ⟨_, _, .asks, ?_⟩
    cases s.client.status.isRunning <;> rfl
  | waiting =>
    cases hheld : s.starts.isHeld with
    | true =>
      cases (resume_waiting_held hheld).symm.trans h
    | false =>
      obtain ⟨plan, s', hplan⟩ : ∃ plan s', planStart (s.time now) s = (plan, s') := ⟨_, _, rfl⟩
      obtain rfl := Option.some.inj ((resume_waiting hheld hplan).symm.trans h)
      refine ⟨_, _, .decides hheld hplan, ?_⟩
      cases plan <;> rfl
  | trying began =>
    cases hchanging : s.client.isChanging with
    | true => cases (resume_trying_changing hchanging).symm.trans h
    | false =>
      obtain rfl := Option.some.inj ((resume_trying hchanging).symm.trans h)
      have hclear : Stays (unread (change true s)) (clear (change true s)) :=
        ⟨rfl, rfl, rfl, rfl, rfl, rfl, nofun, fun _ h => h⟩
      have hstart := advance_starting (s := change true s) now n (hdown began rfl)
      -- an earlier process is ended first; without one, the start launches at once
      cases hcurrent : (change true s).client.current with
      | some old =>
        rw [hcurrent] at hstart
        rw [hstart]
        have habandoned := Clears.updateChannel (c := (clear (change true s)).client) old
          (f := fun c => { c with isClosing := true }) fun _ h => h
        exact ⟨_, _, .clears (hclear.trans habandoned.stays), rfl⟩
      | none =>
        rw [hcurrent] at hstart
        rw [hstart]
        exact stride_launching now n rfl rfl hclear rfl
  | clearing began old =>
    have hreader : s.client.reader = none := hcleared began old rfl
    rw [Station.task, resume_within] at h
    cases hreaping : (s.client.channel old).isReaping with
    | true =>
      rw [resume_kill_reaping hreaping] at h
      cases h
    | false =>
      obtain ⟨s₁, hs₁, haround, hkill⟩ := resume_kill (e := ⟨s, n, [], []⟩) now hreaping
        fun _ => launching
      obtain rfl := Option.some.inj ((congrArg (Option.map (through now began)) hkill).symm.trans h)
      have hunread : unread (change s.client.isChanging s) = s := by
        rw [unread, ← hreader]
        rfl
      have hlaunching := stride_launching now n (x := .clearing began old) rfl rfl
        (hunread.symm ▸ hs₁) haround
      rwa [hreader] at hlaunching
  | probing began p =>
    rw [Station.task, resume_within] at h
    obtain ⟨r₁, hprobe, rfl⟩ := Option.map_eq_some_iff.mp h
    obtain ⟨s', q, -, hs', rfl⟩ | ⟨s', hs', rfl⟩ | ⟨s', reason, hs', rfl⟩ := resume_probe hprobe
    · rw [through_waiting (isDone_probe q)]
      exact ⟨_, _, .probes hs', rfl⟩
    · rw [through_done]
      exact ⟨_, _, .comesUp hs', rfl⟩
    · rw [through_done]
      exact ⟨_, _, .fails rfl (.inl ⟨p, rfl⟩) (b := s.client.isChanging) hs', rfl⟩
  | kept o =>
    obtain rfl := Option.some.inj h
    exact ⟨some (.kept o), _, .stays, rfl⟩
  | reading r =>
    obtain ⟨s', q, hs', rfl⟩ := resume_reading h
    refine ⟨_, _, .reads hs', ?_⟩
    cases q <;> rfl

end LanguageServer.Server.Guard
