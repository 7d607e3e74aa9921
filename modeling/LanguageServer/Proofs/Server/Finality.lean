import LanguageServer.Proofs.Analyzer.Books
import LanguageServer.Proofs.Server.Upkeep

/-! All runs of a server whose starts and stops are written down. Tasks ask for the process to be up, ask it,
start it, stop it, and stop it for good; processes come and go meanwhile. -/
namespace LanguageServer.Server.Journal

open Analyzer

variable {α β : Type} {isOpen : Bool} {w : Ranks} {x : Watched} {i me : TaskId} {m n : Machine Watched}

/-- Tasks that start and stop the process only in these ways. -/
inductive Drives (isOpen : Bool) : {α : Type} → Task Watched α → Prop
  | aside {α : Type} {t : Job α} : t.Behaves Undriven → Drives isOpen (t.zoom watcher)
  | tryStart : isOpen = true → Drives isOpen tryStart
  | halt : Drives isOpen halt
  | shut : Drives isOpen shut
  | ensure : Drives isOpen ensure
  | ensureStarted : Drives isOpen (ensureStarted.zoom watcher)
  | bind {α β : Type} {t : Task Watched α} {g : α → Task Watched β} :
    Drives isOpen t → (∀ a, Drives isOpen (g a)) → Drives isOpen (t.bind g)
  | fork {t : Task Watched Unit} : Drives isOpen t → Drives isOpen (Task.fork t)

theorem undriven_request (op : Operation) (params : Json) (read : Json → Option α) :
    (request op params read).Behaves Undriven :=
  behaves_request Undriven.allows (fun id s => undriven_post id op params s) read

theorem drives_request (op : Operation) (params : Json) (read : Json → Option α) :
    Drives isOpen ((request op params read).zoom watcher) :=
  .aside (undriven_request op params read)

theorem drives_withDocument {u : Url} {answer : Snapshot → Job (Except Failure α)}
    (hanswer : ∀ s, (answer s).Behaves Undriven) : Drives isOpen ((withDocument u answer).zoom watcher) := by
  unfold withDocument
  rw [Task.zoom_then]
  refine .bind (.aside (behaves_document Undriven.refl u)) fun found => ?_
  cases found with
  | none => exact .aside (.done _)
  | some snapshot =>
    rw [Task.zoom_then]
    refine .bind .ensureStarted fun up => ?_
    cases up with
    | error f => exact .aside (.done _)
    | ok _ => exact .aside (.bind (hanswer snapshot) fun _ => .done _)

theorem drives_analyze (u : Url) : Drives isOpen ((analyze u).zoom watcher) := by
  unfold analyze analyzeBy
  rw [Task.zoom_then]
  refine .bind (.aside (behaves_document Undriven.refl u)) fun found => ?_
  cases found with
  | none => exact .aside (.done _)
  | some snapshot =>
    rw [Task.zoom_then]
    refine .bind (.aside (.read Undriven.refl _)) fun held => ?_
    cases held with
    | some a => exact .aside (.done _)
    | none =>
      rw [Task.zoom_then]
      refine .bind .ensureStarted fun up => ?_
      cases up with
      | error f => exact .aside (.done _)
      | ok _ =>
        refine .aside (.bind (behaves_getOrCompute Undriven.refl (fun s a => ?_) _ ?_) fun _ => .done _)
        · exact ⟨⟨rfl, rfl, rfl, rfl, rfl, Nat.le_refl _, rfl, fun h => h⟩, rfl, rfl⟩
        · exact undriven_request _ _ _

/-- Someone takes note of what has happened. -/
def Watched.takeNote (x : Watched) : Watched where
  server := clientLens.modify (fun c => { c with events := [] }) x.server
  log := x.log
  seen := x.seen ++ x.server.client.events

/-- The runs of a server with its journal. Tasks join and move in any order; between two moves processes read,
write and end, time passes, and someone takes note of what has happened. -/
inductive Run (isOpen : Bool) : Machine Watched → Prop
  | start (s : Server) : s.client = .new → s.starts.isHeld = false → s.isShutDown = false →
    Run isOpen (Machine.start ⟨s, [], []⟩)
  | spawn {m : Machine Watched} {t : Task Watched Unit} : Run isOpen m → Drives isOpen t → Run isOpen (m.spawn t)
  | other {m : Machine Watched} (s : Server) (now : Instant) : Run isOpen m → Undriven m.state.server s →
    Run isOpen { m with state := watcher.set s m.state, now }
  | takeNote {m : Machine Watched} : Run isOpen m → Run isOpen { m with state := m.state.takeNote }
  | move {m n : Machine Watched} (i : TaskId) : Run isOpen m → m.step? i = some n → Run isOpen n

theorem ready_of_honors {t : Task Watched Unit} (hi : w.role i = .caller .away .out)
    (ht : ∀ v x Q, v.role i = .caller .away .out → Sound isOpen v x → Closed isOpen i Q →
      (∀ a u y, u.role i = .caller .away .out → Sound isOpen u y → Q a u y) →
      t.Honors (pact isOpen) i true Q v x) : (pact isOpen).Ready i w t := by
  intro v x hv hs
  refine ht v x _ (hv.2.trans hi) hs (fun _ w v y hv h => h.of_step (pact_isFair isOpen) hv) fun _ u y hu hs => ?_
  exact ⟨u.told, List.suffix_rfl, pact_hosts.leaves u y i hu hs⟩

theorem Drives.honors {t : Task Watched α} (ht : Drives isOpen t) {waited : Bool}
    (hme : w.role me = .caller .away .out) (hs : Sound isOpen w x) {Q : α → Ranks → Watched → Prop}
    (hclosed : Closed isOpen me Q) (hQ : ∀ a v y, v.role me = .caller .away .out → Sound isOpen v y → Q a v y) :
    t.Honors (pact isOpen) me waited Q w x := by
  induction ht generalizing w x me waited with
  | aside ht => exact honors_aside ht hs (hme ▸ isLive_caller) fun a v y hv hs _ => hQ a v y (hv.trans hme) hs
  | tryStart hopen => exact honors_tryStart hme hs hopen hclosed hQ
  | halt => exact honors_halt hme hs hclosed hQ
  | shut => exact honors_shut hme hs hclosed hQ
  | ensure => exact honors_ensure hme hs hclosed hQ
  | ensureStarted => exact honors_ensureStarted hme hs hclosed fun o v y hme hs _ _ => hQ o v y hme hs
  | bind _ _ iht ihg =>
    refine Task.Honors.bind_of_done (fun a _ => ihg a hme hs hclosed hQ) (iht hme hs (hclosed.honors _) ?_)
    exact fun a v y hme hs => ihg a hme hs hclosed hQ
  | fork _ ih =>
    refine pact_hosts.honors_fork (fun i v hv => ?_) hs fun i v hv hs => hQ i v _ (hv.2.trans hme) hs
    exact ready_of_honors hv fun u y R hu hs hclosed hR => ih hu hs hclosed hR

theorem Drives.ready {t : Task Watched Unit} (ht : Drives isOpen t) (hi : w.role i = .caller .away .out) :
    (pact isOpen).Ready i w t :=
  ready_of_honors hi fun _ _ _ hme hs hclosed hQ => ht.honors hme hs hclosed hQ

theorem sound_start {s : Server} (hs : s.client = .new) : Sound isOpen ⟨[], fun _ => .unborn⟩ ⟨s, [], []⟩ := by
  have hnever {later earlier : List Moment} {m : Moment} (hlog : [] = later ++ m :: earlier) : False := by
    cases later <;> cases hlog
  have hnone {P : Prop} {m : Moment} {earlier : List Moment} (hm : m :: earlier <:+ []) : P := by
    cases List.suffix_nil.mp hm
  refine ⟨⟨fun id hid => ?_, fun id hid => ?_, fun _ => ?_, .nil, fun _ _ h => absurd h List.not_mem_nil, ?_,
    fun _ _ h => absurd h List.not_mem_nil, fun _ _ _ _ hdown => ?_, fun _ h => absurd h List.not_mem_nil,
    fun _ _ hm => hnone hm, fun _ _ h => absurd h List.not_mem_nil, fun _ _ _ hm => hnone hm⟩,
    ⟨fun _ => trivial, fun _ hin => ?_, fun _ _ hin => ?_, fun _ hne => absurd rfl hne,
      fun _ _ hne => absurd rfl hne, fun _ htried => ?_, fun i hi => ?_⟩, List.suffix_rfl⟩
  · rw [hs] at hid
    cases hid
  · rw [hs] at hid
    cases hid
  · rw [hs]
    exact nofun
  · rw [hs]
    rfl
  · exact (hnever hdown.log).elim
  · cases hin
  · cases hin
  · cases htried
  · rw [hs] at hi
    cases hi

theorem Sound.takeNote (hs : Sound isOpen w x) : Sound isOpen w x.takeNote := by
  have hpast {s : Server} (h : Past s x.server) : Past s x.takeNote.server := ⟨h.fresh, h.gone, h.shut⟩
  have hfailed (h : Failed x.server.client) : Failed x.takeNote.server.client := ⟨h.phase, h.active, h.current⟩
  have htold : (x.seen ++ x.server.client.events) ++ [] = (notices x.log).reverse.map (·.2) := by
    rw [List.append_nil]
    exact hs.told
  refine ⟨⟨hs.active, hs.current, hs.free, hs.orderly, hs.bounded, htold, fun s s' h => hpast (hs.past s s' h),
    hs.halted, hs.shut, hs.begun, hs.failed, hs.answered⟩, ⟨fun i => ?_, hs.locked, hs.single, hs.held, hs.sole,
      hs.decided, hs.reader⟩, hs.log⟩
  have hfits := hs.fits i
  cases hl : (w.role i).life with
  | failed =>
    rw [hl] at hfits
    exact hfailed hfits
  | _ =>
    rw [hl] at hfits
    exact hfits

theorem Run.binds (hr : Run isOpen m) : ∃ w, (pact isOpen).Binds w m := by
  induction hr with
  | start s hs =>
    refine ⟨⟨[], fun _ => .unborn⟩, sound_start hs, trivial, nofun, nofun, List.nodup_nil, ?_,
      fun _ _ => rfl⟩
    exact fun i => iff_of_false (fun h => h.1 rfl) List.not_mem_nil
  | @spawn m t _ ht ih =>
    obtain ⟨w, hm⟩ := ih
    have hunborn : w.role m.next = .unborn := hm.unborn _ (Nat.le_refl _)
    have hjoined := pact_hosts.arrives w _ _ hunborn hm.holds
    have hready := ht.ready (w.role_cast_self m.next (.caller .away .out))
    exact ⟨_, hm.spawn (pact_isFair isOpen) List.suffix_rfl trivial isLive_caller hjoined hready⟩
  | other s now _ hs ih =>
    obtain ⟨w, hm⟩ := ih
    exact ⟨_, hm.others (pact_isFair isOpen) List.suffix_rfl (Sound.undriven hm.holds hs) trivial⟩
  | takeNote _ ih =>
    obtain ⟨w, hm⟩ := ih
    exact ⟨_, hm.others (pact_isFair isOpen) List.suffix_rfl (Sound.takeNote hm.holds) trivial⟩
  | move i _ hn ih =>
    obtain ⟨w, hm⟩ := ih
    obtain ⟨v, -, hn⟩ := hm.step (pact_isFair isOpen) List.suffix_rfl hn
    exact ⟨v, hn⟩

section Cues

inductive Cue where
  | join (t : Task Watched Unit)
  | move (i : TaskId)
  | other (f : Server → Server)
  | waits (now : Instant)
  | takeNote

def Cue.IsProper (isOpen : Bool) : Cue → Prop
  | .join t => Drives isOpen t
  | .other f => ∀ s, Undriven s (f s)
  | _ => True

def Cue.play (m : Machine Watched) : Cue → Option (Machine Watched)
  | .join t => some (m.spawn t)
  | .move i => m.step? i
  | .other f => some { m with state := watcher.set (f m.state.server) m.state }
  | .waits now => some { m with state := watcher.set m.state.server m.state, now }
  | .takeNote => some { m with state := m.state.takeNote }

theorem Run.play {cue : Cue} (hr : Run isOpen m) (hcue : cue.IsProper isOpen) (hn : cue.play m = some n) :
    Run isOpen n := by
  cases cue with
  | join t =>
    cases hn
    exact hr.spawn hcue
  | move i => exact hr.move i hn
  | other f =>
    cases hn
    exact hr.other _ m.now (hcue _)
  | waits now =>
    cases hn
    exact hr.other _ now (.refl _)
  | takeNote =>
    cases hn
    exact hr.takeNote

theorem Run.plays {cues : List Cue} (hr : Run isOpen m) (hcues : ∀ cue ∈ cues, cue.IsProper isOpen)
    (hn : cues.foldlM Cue.play m = some n) : Run isOpen n := by
  induction cues generalizing m with
  | nil =>
    cases hn
    exact hr
  | cons cue cues ih =>
    obtain ⟨q, hq, hn⟩ := Option.bind_eq_some_iff.mp hn
    exact ih (hr.play (hcues _ List.mem_cons_self) hq) (fun c hc => hcues c (List.mem_cons_of_mem _ hc)) hn

/-- The process writes a line. -/
def writes (id : ChannelId) (text : String) : Server → Server :=
  clientLens.modify (Client.updateChannel id fun ch => { ch with link := ch.link.say text.toUTF8.toList })

/-- The process closes its output. -/
def mutes (id : ChannelId) : Server → Server :=
  clientLens.modify (Client.updateChannel id fun ch => { ch with link := { ch.link with isMute := true } })

theorem undriven_update (id : ChannelId) (f : Channel → Channel) (s : Server) :
    Undriven s (clientLens.modify (Client.updateChannel id f) s) :=
  undriven_channels s id _ s.client.nextRequest

end Cues

end LanguageServer.Server.Journal

/-! One process after another: how they start, crash and are stopped, and what is told of them. -/
namespace LanguageServer.Server.Journal

open Analyzer

variable {α : Type} {isOpen g : Bool} {x : Watched} {s s' r : Server} {id : ChannelId} {m n : Machine Watched}
  {later earlier : List Moment}

/-- Of the channels no other is changed, and nothing else is if the channel does not take requests. -/
structure Confined (id : ChannelId) (s s' : Server) : Prop where
  others : ∀ j, j ≠ id → s'.client.channel j = s.client.channel j
  rest : s.client.active ≠ some id → s' = { s with client :=
    { s.client with channels := s'.client.channels, nextRequest := s'.client.nextRequest } }

theorem confined_channels (s : Server) (id : ChannelId) (ch : Channel) (n : RequestId) :
    Confined id s { s with client :=
      { s.client with channels := s.client.channels.insert id ch, nextRequest := n } } where
  others j hj := (s.client.amends_updateChannel id fun _ => ch).other j hj
  rest _ := rfl

theorem Confined.allows {P : Channel → Channel → Prop} (id : ChannelId) : Allows P id (Confined id) where
  refl _ := ⟨fun _ _ => rfl, fun _ => rfl⟩
  amend s ch _ := confined_channels s id ch s.client.nextRequest

theorem confined_post (id : ChannelId) (op : Operation) (params : Json) (s : Server) :
    Confined id s { s with client := (s.client.post id op params).2 } := by
  simp only [Client.post]
  split
  · exact ⟨fun _ _ => rfl, fun _ => rfl⟩
  · split
    · exact ⟨fun _ _ => rfl, fun _ => rfl⟩
    · exact confined_channels s id _ _

theorem confined_disconnect (id : ChannelId) (code : Option Int) (s : Server) :
    Confined id s (clientLens.modify (·.disconnect id code) s) where
  others j hj := (s.client.amends_disconnect id code).other j hj
  rest hid := by
    have hclient : s.client.disconnect id code = s.client.updateChannel id (·.failAll (.crashed code)) := by
      simp [Client.disconnect, hid]
    simp only [clientLens, Lens.modify, hclient]
    rfl

/-- Whoever reads from a process changes nothing else unless requests go to it. -/
theorem keeps_listen (id : ChannelId) : (listen id).Keeps (Confined id) := by
  have hrefl (s : Server) : Confined id s s := ⟨fun _ _ => rfl, fun _ => rfl⟩
  have hends : (do
      hearing id
      if ← Task.read fun s => (s.client.channel id).isClosing then
        onClient (Client.updateChannel id (·.failAll .terminated))
      else
        let code ← reap id
        onClient (·.disconnect id code) : Job Unit).Behaves (Confined id) := by
    refine .bind (behaves_hearing (Confined.allows id)) fun _ => .bind (.read hrefl _) fun isClosing => ?_
    split
    · exact .modify fun s => confined_channels s id _ s.client.nextRequest
    · exact .bind (behaves_reap (Confined.allows id)) fun code => .modify (confined_disconnect id code)
  rw [listen_eq]
  exact hends.keeps

/-- So does whoever asks it something. -/
theorem keeps_send (id : ChannelId) (op : Operation) (params : Json) (limit : Duration) :
    (send id op params limit).Keeps (Confined id) :=
  (behaves_send (Confined.allows id) (confined_post id op params) limit).keeps

/-- How the processes of a server come and go. -/
structure LifeCycle (x : Watched) : Prop where
  /-- Requests go to a process only while it runs, and then to the latest one. -/
  active : ∀ id, x.server.client.active = some id →
    x.server.client.phase = .running ∧ x.server.client.current = some id
  /-- A process that was taken away is never again the current one, nor do requests go to it. -/
  gone : ∀ s s' id, .step s s' ∈ x.log → id < s'.client.freshId → s'.client.current ≠ some id →
    x.server.client.current ≠ some id ∧ x.server.client.active ≠ some id
  /-- It is told of one process after another, each on a later channel, that it started, that it crashed if
  it did, and that it was stopped if it was. -/
  rounds : ∃ rs : List Round, (notices x.log).reverse = rs.flatMap Round.notices ∧
    rs.Pairwise (fun r r' => r.channel < r'.channel) ∧
    x.seen ++ x.server.client.events = (rs.flatMap Round.notices).map (·.2)
  /-- A start that fails leaves nothing behind. -/
  failed : ∀ f s, .started (.error f) s ∈ x.log →
    s.client.status = .notStarted ∧ s.client.active = none ∧ s.client.current = none
  /-- After a stop nobody is answered until the next start. -/
  stopped : ∀ forGood r later earlier, DownSince x.log forGood r later earlier →
    x.server.client.status = .stopped ∧ x.server.client.target = .error .terminated ∧
    ∀ (α : Type) (op : Operation) (params : Json) (read : Json → Option α) (now : Instant)
      (e : Machine.Effects Server), e.state = x.server →
        Machine.advance now (request op params read) e = (e, .done (.error .terminated))

theorem status_of_phase {c : Client} (h : c.phase = .stopped) (hnone : c.active = none) :
    c.status = .stopped ∧ c.target = .error .terminated := by
  simp [Client.status, Client.target, h, hnone]

/-- Whoever asks while no channel takes requests is told why at once. -/
theorem advance_request {f : Failure} {e : Machine.Effects Server} (h : e.state.client.target = .error f)
    {op : Operation} {params : Json} {read : Json → Option α} (now : Instant) :
    Machine.advance now (request op params read) e = (e, .done (.error f)) := by
  simp only [request, Bind.bind, Task.bind, Task.read, Machine.advance, h]
  rfl

/-- Over all runs, whatever else happens to other parts of the server. -/
theorem Run.lifeCycle (hr : Run isOpen m) : LifeCycle m.state ∧ ∀ id, (listen id).Keeps (Confined id) ∧
    ∀ op params limit, (send id op params limit).Keeps (Confined id) := by
  obtain ⟨w, hm⟩ := hr.binds
  have hs : Sound isOpen w m.state := hm.holds
  refine ⟨?_, fun id => ⟨keeps_listen id, keeps_send id⟩⟩
  have hactive (id : ChannelId) (hid : m.state.server.client.active = some id) :
      m.state.server.client.phase = .running ∧ m.state.server.client.current = some id := by
    obtain ⟨hphase, hcurrent, -⟩ := hs.active id hid
    exact ⟨hphase, hcurrent⟩
  -- a channel that takes requests is the current one, so that what is never current again takes none
  refine ⟨hactive, fun s s' id hstep hid hnot => ?_, ?_, fun f s hfailed => ?_, fun g r later earlier hdown => ?_⟩
  · have hgone := (hs.past s s' hstep).gone id hid hnot
    exact ⟨hgone, fun hid => hgone (hactive id hid).2⟩
  · obtain ⟨rs, hrs⟩ := hs.orderly.tells
    exact ⟨rs, hrs.notices, hrs.increasing, hrs.notices ▸ hs.told⟩
  · obtain ⟨hphase, hnone, hcurrent⟩ := hs.failed f s hfailed
    exact ⟨by simp [Client.status, hphase], hnone, hcurrent⟩
  · obtain ⟨hphase, hnone, -⟩ := hs.halted g r later earlier hdown
    obtain ⟨hstatus, htarget⟩ := status_of_phase hphase hnone
    refine ⟨hstatus, htarget, fun α op params read now e he => ?_⟩
    exact advance_request (he ▸ htarget) now

section Restarting

def starting : Task Watched Unit := tryStart.bind fun _ => .done ()

/-- From now on processes can be launched. -/
def admits (s : Server) : Server := { s with around := { s.around with launcher := .scripted none } }

/-- A start fails, the next one succeeds, the process crashes, another one is started and stopped. -/
def restarting : List Cue := [.join starting, .move 0, .other admits, .join starting, .move 1,
  .other (writes 0 "\x7b\"id\":1\x7d\n"), .move 2, .move 2, .move 1, .other (mutes 0), .move 2, .move 2, .move 2,
  .join starting, .move 3, .move 3, .other (writes 1 "\x7b\"id\":2\x7d\n"), .move 4, .move 4, .move 3, .takeNote,
  .join halt, .move 5, .move 5]

def refusing : Server := .new ⟨.empty, [], .scripted (some .terminated), [], 0, none⟩ {}

def Moment.isFailure : Moment → Bool
  | .started (.error _) _ => true
  | _ => false

theorem Run.lifeCycle_restarting : ∃ m, Run true m ∧ m.state.log.any Moment.isFailure = true ∧
    m.state.seen = [.started (some 40001), .crashed none, .started (some 40002)] ∧
    m.state.server.client.events = [.stopped] ∧ LifeCycle m.state ∧ (listen 0).Keeps (Confined 0) := by
  have hplayed : (restarting.foldlM Cue.play (Machine.start ⟨refusing, [], []⟩)).map (fun m =>
      m.state.log.any Moment.isFailure && m.state.server.client.events == [.stopped] &&
        m.state.seen == [.started (some 40001), .crashed none, .started (some 40002)]) = some true := by
    decide +kernel
  obtain ⟨m, hm, hend⟩ := Option.map_eq_some_iff.mp hplayed
  rw [Bool.and_eq_true, Bool.and_eq_true] at hend
  obtain ⟨⟨hfailed, hevents⟩, hseen⟩ := hend
  have hrun : Run true m := by
    refine Run.plays (.start refusing rfl rfl rfl) ?_ hm
    have hstarting : Drives true starting := .bind (.tryStart rfl) fun _ => .aside (t := .done ()) (.done ())
    have hadmits (s : Server) : Undriven s (admits s) :=
      ⟨⟨rfl, rfl, rfl, rfl, rfl, Nat.le_refl _, rfl, fun h => h⟩, rfl, rfl⟩
    simp only [restarting, List.forall_mem_cons, Cue.IsProper, true_and]
    exact ⟨hstarting, hadmits, hstarting, undriven_update 0 _, undriven_update 0 _, hstarting, undriven_update 1 _,
      .halt, fun _ h => absurd h List.not_mem_nil⟩
  obtain ⟨hcycle, hconfined⟩ := hrun.lifeCycle
  exact ⟨m, hrun, hfailed, eq_of_beq hseen, eq_of_beq hevents, hcycle, (hconfined 0).1⟩

end Restarting

end LanguageServer.Server.Journal

/-! How far it is final that the process is stopped for good: nobody decides on a start any more, but someone
who has decided before may still start it. -/
namespace LanguageServer.Server.Journal

open Analyzer

variable {isOpen : Bool} {x : Watched} {r : Server} {m : Machine Watched} {later earlier : List Moment}

structure Finality (x : Watched) : Prop where
  /-- Until someone begins to start the process again it is down, and none has been launched. -/
  down : ∀ r later earlier, DownSince x.log true r later earlier →
    x.server.client.status = .stopped ∧ x.server.client.target = .error .terminated ∧
      x.server.around.launches = r.around.launches
  /-- Until then whoever asks for it is told that it is down. -/
  refused : ∀ newer length o older, x.log = newer ++ .ensured length o :: older →
    ∀ r later earlier, DownSince older true r later earlier → earlier.length < length → o = .error .terminated
  /-- Who begins has looked after a start from before it was down. -/
  straggler : ∀ newer begin older, x.log = newer ++ begin :: older → begin.Begins →
    ∀ r later earlier, DownSince older true r later earlier →
      r.starts.isHeld = true ∧ ∀ s s', .step s s' ∈ later → s'.starts.isHeld = true
  /-- It is down for good if nobody looked after a start then. -/
  final : ∀ r later earlier, x.log = later ++ .stopped true r :: earlier → r.starts.isHeld = false →
    DownSince x.log true r later earlier

/-- Whatever was not begun when the process was stopped for good is not begun later. -/
theorem Tied.final (ht : Tied false x) (hlog : x.log = later ++ .stopped true r :: earlier)
    (hfree : r.starts.isHeld = false) : DownSince x.log true r later earlier := by
  refine ⟨hlog, ?_⟩
  have hsuffix : later ++ .stopped true r :: earlier <:+ x.log := hlog ▸ List.suffix_rfl
  clear hlog
  -- by induction on what came after: the first to begin would have looked after a start at the stop
  induction later with
  | nil => exact fun _ h => absurd h List.not_mem_nil
  | cons m later ih =>
    have hquiet := ih ((List.suffix_cons _ _).trans hsuffix)
    intro n hn
    obtain rfl | hn := List.mem_cons.mp hn
    · intro hbegins
      have hheld := (ht.begun n _ hsuffix hbegins rfl r later earlier ⟨rfl, hquiet⟩).first
      cases hfree.symm.trans hheld
    · exact hquiet n hn

/-- Over all runs in which nobody starts the process without looking after a start. -/
theorem Run.finality (hr : Run false m) : Finality m.state := by
  obtain ⟨w, hm⟩ := hr.binds
  have hs : Sound false w m.state := hm.holds
  refine ⟨fun r later earlier hdown => ?_, fun newer length o older hlog => ?_, fun newer begin older hlog hbegins => ?_,
    fun r later earlier hlog hfree => hs.final hlog hfree⟩
  · obtain ⟨hphase, hnone, hlaunches⟩ := hs.halted true r later earlier hdown
    obtain ⟨hstatus, htarget⟩ := status_of_phase hphase hnone
    exact ⟨hstatus, htarget, hlaunches⟩
  · exact hs.answered length o older ⟨newer, hlog.symm⟩
  · intro r later earlier hdown
    have hheld := hs.begun begin older ⟨newer, hlog.symm⟩ hbegins rfl r later earlier hdown
    exact ⟨hheld.first, hheld.later⟩

section Straggling

def Moment.isFinal (launches : Nat) : Moment → Bool
  | .stopped true r => r.client.status == .stopped && r.around.launches == launches
  | _ => false

theorem Moment.exists_of_isFinal {n : Moment} {launches : Nat} (h : n.isFinal launches = true) :
    ∃ r, n = .stopped true r ∧ r.client.status = .stopped ∧ r.around.launches = launches := by
  cases n with
  | stopped forGood r =>
    cases forGood with
    | false => cases h
    | true =>
      obtain ⟨hstatus, hlaunches⟩ := Bool.and_eq_true_iff.mp h
      exact ⟨r, rfl, eq_of_beq hstatus, eq_of_beq hlaunches⟩
  | _ => cases h

def ensuring : Task Watched Unit := ensure.bind fun _ => .done ()

/-- A process closes its output and does not end. While it is stopped for good, someone asks for a process. -/
def straggling : List Cue := [.join ensuring, .move 0, .move 0, .move 0, .other (writes 0 "\x7b\"id\":1\x7d\n"),
  .move 1, .move 1, .move 0, .other (mutes 0), .move 1, .move 1, .move 1, .waits ⟨1000000000⟩, .move 1,
  .join shut, .join ensuring, .move 2, .move 2, .move 3, .move 3, .move 2, .move 3,
  .other (writes 1 "\x7b\"id\":2\x7d\n"), .move 4, .move 4, .move 3]

def equipped : Server :=
  .new ⟨FileTree.empty.write ⟨"/pike"⟩ .executable, [], .program ⟨⟨"/pike"⟩, none, none⟩, [], 0, none⟩ {}

/-- The process is stopped for good, and then there is another one. -/
theorem Run.finality_straggler : ∃ m, Run false m ∧ (∃ r, .stopped true r ∈ m.state.log ∧
      r.client.status = .stopped ∧ r.around.launches = 1) ∧
    m.state.server.client.status = .idle ∧ m.state.server.around.launches = 2 ∧ Finality m.state := by
  have hplayed : (straggling.foldlM Cue.play (Machine.start ⟨equipped, [], []⟩)).map (fun m =>
      m.state.log.any (Moment.isFinal 1) && m.state.server.client.status == .idle &&
        m.state.server.around.launches == 2) = some true := by
    decide +kernel
  obtain ⟨m, hm, hend⟩ := Option.map_eq_some_iff.mp hplayed
  rw [Bool.and_eq_true, Bool.and_eq_true] at hend
  obtain ⟨⟨hstopped, hidle⟩, hlaunches⟩ := hend
  have hdone : Drives false (.done () : Task Watched Unit) := .aside (t := .done ()) (.done ())
  have hrun : Run false m := by
    refine Run.plays (.start equipped rfl rfl rfl) ?_ hm
    have hensuring : Drives false ensuring := .bind .ensure fun _ => hdone
    simp only [straggling, List.forall_mem_cons, Cue.IsProper, true_and]
    exact ⟨hensuring, undriven_update 0 _, undriven_update 0 _, .shut, hensuring, undriven_update 1 _,
      fun _ h => absurd h List.not_mem_nil⟩
  obtain ⟨n, hn, hfinal⟩ := List.any_eq_true.mp hstopped
  obtain ⟨r, rfl, hstopped, hlaunched⟩ := Moment.exists_of_isFinal hfinal
  exact ⟨m, hrun, ⟨r, hn, hstopped, hlaunched⟩, eq_of_beq hidle, eq_of_beq hlaunches, hrun.finality⟩

end Straggling

end LanguageServer.Server.Journal
