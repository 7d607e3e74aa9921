import LanguageServer.Proofs.Analyzer.Rounds
import LanguageServer.Proofs.Analyzer.Standing
import LanguageServer.Proofs.Task.Joint

/-! A server together with a journal: the steps that tasks take on it, and what starts and stops of the
analysis process have come to. What the journal tells of the processes that there have been stays true
through every step, in whatever order the tasks take their steps. -/
namespace LanguageServer.Server.Journal

open Analyzer

inductive Moment where
  /-- A task takes a step. -/
  | step (s s' : Server)
  | started (o : Except Failure Unit) (s : Server)
  | stopped (forGood : Bool) (s : Server)
  /-- Whoever asked for the process to be up, when the journal was so long, is told the outcome. -/
  | ensured (length : Nat) (o : Except Failure Unit)

/-- A server with its journal, latest first, and the events that were taken note of. -/
structure Watched where
  server : Server
  log : List Moment
  seen : List Event

/-- The server as a part of what is watched: whatever changes it takes a step. -/
def watcher : Lens Watched Server where
  get x := x.server
  set s x := { x with server := s, log := .step x.server s :: x.log }

def Watched.note (m : Moment) (x : Watched) : Watched := { x with log := m :: x.log }

namespace Moment

/-- Someone begins to start the process. -/
def Begins : Moment → Prop
  | .step s s' => s.client.phase ≠ .starting ∧ s'.client.phase = .starting
  | _ => False

def IsStill : Moment → Prop
  | .step _ _ => False
  | _ => True

def current? : Moment → Option ChannelId
  | .step s _ => s.client.current
  | _ => none

/-- The channel that an event is about: a start is about the channel that is active from then on, a crash
about the one that was active before, and a stop about the one that was current last. -/
def about (s s' : Server) (earlier : List Moment) : Event → Option ChannelId
  | .started _ => s'.client.active
  | .crashed _ => s.client.active
  | .stopped => earlier.findSome? current?

def news (earlier : List Moment) : Moment → List Notice
  | .step s s' => ((s'.client.events.drop s.client.events.length).map fun e =>
      (about s s' earlier e, e)).reverse
  | _ => []

end Moment

/-- What a journal tells of the processes, latest first. -/
def notices : List Moment → List Notice
  | [] => []
  | m :: earlier => m.news earlier ++ notices earlier

/-- Nobody begins to start the process. -/
def Quiet (ms : List Moment) : Prop := ∀ m ∈ ms, ¬ m.Begins

/-- A stop has come to its end, and nobody has begun to start the process since. -/
structure DownSince (log : List Moment) (forGood : Bool) (r : Server) (later earlier : List Moment) :
    Prop where
  log : log = later ++ .stopped forGood r :: earlier
  quiet : Quiet later

/-- Someone looks after a start all the time. -/
structure Held (r : Server) (later : List Moment) : Prop where
  first : r.starts.isHeld = true
  later : ∀ s s', .step s s' ∈ later → s'.starts.isHeld = true

/-- Someone has looked after a start ever since the process was stopped for good, if it is down since. -/
def HeldSince (log : List Moment) : Prop :=
  ∀ r later earlier, DownSince log true r later earlier → Held r later

/-- Whoever asked for the process to be up, when the journal was so long, is told that it is down for good
if it was so then and nobody has begun to start it since. -/
def Answered (log : List Moment) (length : Nat) (o : Except Failure Unit) : Prop :=
  ∀ r later earlier, DownSince log true r later earlier → earlier.length < length → o = .error .terminated

/-- A start came to nothing. -/
structure Failed (c : Client) : Prop where
  phase : c.phase = .notStarted
  active : c.active = none
  current : c.current = none

/-- What may be written down besides a step. -/
def Moment.Notes (x : Watched) : Moment → Prop
  | .step _ _ => False
  | .started o s => ∀ f, o = .error f → Failed s.client
  | .stopped forGood s => s = x.server ∧ x.server.client.phase = .stopped ∧ x.server.client.active = none ∧
      (forGood = true → x.server.isShutDown = true)
  | .ensured length o => Answered x.log length o

/-- What was told last of all is about the channel, and it is not that its process was stopped. -/
def IsLatest (id : ChannelId) (ns : List Notice) : Prop :=
  ∃ e, ns.head? = some (some id, e) ∧ e ≠ .stopped

/-- What a later state owes to an earlier one: a channel that was not current does not become so. -/
structure Past (s s' : Server) : Prop where
  fresh : s.client.freshId ≤ s'.client.freshId
  gone : ∀ id, id < s.client.freshId → s.client.current ≠ some id → s'.client.current ≠ some id
  shut : s.isShutDown = true → s'.isShutDown = true

/-- The server is as its journal tells. If `isOpen`, the process is started not only by those who look
after a start. -/
structure Tied (isOpen : Bool) (x : Watched) : Prop where
  active : ∀ id, x.server.client.active = some id → x.server.client.phase = .running ∧
    x.server.client.current = some id ∧ ∃ pid, (notices x.log).head? = some (some id, .started pid)
  current : ∀ id, x.server.client.current = some id → x.server.client.phase ≠ .starting →
    IsLatest id (notices x.log)
  free : x.server.client.isChanging = false → x.server.client.phase ≠ .starting
  orderly : Orderly (notices x.log)
  bounded : ∀ j e, (some j, e) ∈ notices x.log → j < x.server.client.freshId
  told : x.seen ++ x.server.client.events = (notices x.log).reverse.map (·.2)
  past : ∀ s s', .step s s' ∈ x.log → Past s' x.server
  halted : ∀ g r later earlier, DownSince x.log g r later earlier →
    x.server.client.phase = .stopped ∧ x.server.client.active = none ∧
      x.server.around.launches = r.around.launches
  shut : ∀ r, .stopped true r ∈ x.log → x.server.isShutDown = true
  begun : ∀ m earlier, m :: earlier <:+ x.log → m.Begins → isOpen = false → HeldSince earlier
  failed : ∀ f s, .started (.error f) s ∈ x.log → Failed s.client
  answered : ∀ n o earlier, .ensured n o :: earlier <:+ x.log → Answered earlier n o

variable {isOpen g : Bool} {x : Watched} {s s' r : Server} {m : Moment} {log later earlier : List Moment}
  {ns : List Notice} {id : ChannelId} {e : Event}

theorem Past.refl (s : Server) : Past s s := ⟨Nat.le_refl _, fun _ _ h => h, fun h => h⟩

theorem Past.trans {s'' : Server} (h : Past s s') (h' : Past s' s'') : Past s s'' where
  fresh := Nat.le_trans h.fresh h'.fresh
  gone id hid hnot := h'.gone id (Nat.lt_of_lt_of_le hid h.fresh) (h.gone id hid hnot)
  shut hshut := h'.shut (h.shut hshut)

theorem notices_silent (h : s'.client.events = s.client.events) :
    notices (.step s s' :: log) = notices log := by
  simp [notices, Moment.news, h]

theorem notices_emit (h : s'.client.events = s.client.events ++ [e]) :
    notices (.step s s' :: log) = (Moment.about s s' log e, e) :: notices log := by
  simp [notices, Moment.news, h]

theorem Moment.IsStill.notices (h : m.IsStill) : notices (m :: log) = notices log := by
  cases m with
  | step => exact h.elim
  | _ => rfl

theorem Moment.IsStill.current? (h : m.IsStill) :
    (m :: log).findSome? Moment.current? = log.findSome? Moment.current? := by
  cases m with
  | step => exact h.elim
  | _ => rfl

theorem Moment.IsStill.not_begins (h : m.IsStill) : ¬ m.Begins := by
  cases m with
  | step => exact h.elim
  | _ => exact id

/-- Who has not begun since a stop had not begun before the latest moment either. -/
theorem DownSince.of_cons (h : DownSince (m :: log) g r later earlier) :
    later = [] ∧ m = .stopped g r ∨
      ∃ rest, later = m :: rest ∧ ¬ m.Begins ∧ DownSince log g r rest earlier := by
  obtain ⟨hlog, hquiet⟩ := h
  cases later with
  | nil =>
    cases hlog
    exact .inl ⟨rfl, rfl⟩
  | cons m' rest =>
    cases hlog
    exact .inr ⟨rest, rfl, hquiet _ List.mem_cons_self, rfl, fun m hm => hquiet m (List.mem_cons_of_mem _ hm)⟩

theorem DownSince.of_suffix {older : List Moment} (h : DownSince log g r later earlier)
    (hsuffix : older <:+ log) (hlength : earlier.length < older.length) :
    ∃ rest, DownSince older g r rest earlier := by
  obtain ⟨newer, rfl⟩ := hsuffix
  induction newer generalizing later with
  | nil => exact ⟨later, h⟩
  | cons m newer ih =>
    obtain ⟨rfl, rfl⟩ | ⟨rest, rfl, -, hrest⟩ := h.of_cons
    · have heq : newer ++ older = earlier := by
        have hlog := h.log
        simpa using hlog
      rw [← heq, List.length_append] at hlength
      omega
    · exact ih hrest

theorem HeldSince.step (h : HeldSince log) (hheld : s'.starts.isHeld = true) :
    HeldSince (.step s s' :: log) := by
  intro r later earlier hdown
  obtain ⟨-, heq⟩ | ⟨rest, rfl, -, hrest⟩ := hdown.of_cons
  · cases heq
  · obtain ⟨hfirst, hlater⟩ := h r rest earlier hrest
    refine ⟨hfirst, fun t t' ht => ?_⟩
    obtain heq | ht := List.mem_cons.mp ht
    · cases heq
      exact hheld
    · exact hlater t t' ht

theorem Moment.Notes.isStill (h : m.Notes x) : m.IsStill := by
  cases m with
  | step => exact h.elim
  | _ => trivial

theorem HeldSince.note (h : HeldSince x.log) (hm : m.Notes x) (hheld : x.server.starts.isHeld = true) :
    HeldSince (m :: x.log) := by
  intro r later earlier hdown
  obtain ⟨rfl, rfl⟩ | ⟨rest, rfl, -, hrest⟩ := hdown.of_cons
  · exact ⟨hm.1 ▸ hheld, fun _ _ h => absurd h List.not_mem_nil⟩
  · obtain ⟨hfirst, hlater⟩ := h r rest earlier hrest
    refine ⟨hfirst, fun t t' ht => ?_⟩
    obtain rfl | ht := List.mem_cons.mp ht
    · exact hm.elim
    · exact hlater t t' ht

namespace Tied

theorem down (h : Tied isOpen x) (hphase : x.server.client.phase ≠ .running) :
    x.server.client.active = none := by
  refine Option.eq_none_iff_forall_ne_some.mpr fun id hactive => ?_
  obtain ⟨hrunning, -⟩ := h.active id hactive
  exact hphase hrunning

/-- A step after which the server is still as its journal tells. -/
theorem step (h : Tied isOpen x) (ns : List Notice)
    (hnotices : notices (.step x.server s' :: x.log) = ns ++ notices x.log)
    (hevents : s'.client.events = x.server.client.events ++ ns.reverse.map (·.2))
    (horderly : Orderly (ns ++ notices x.log))
    (hbounded : ∀ j e, (some j, e) ∈ ns → j < s'.client.freshId)
    (hpast : Past x.server s')
    (hactive : ∀ id, s'.client.active = some id → s'.client.phase = .running ∧
      s'.client.current = some id ∧ ∃ pid, (ns ++ notices x.log).head? = some (some id, .started pid))
    (hcurrent : ∀ id, s'.client.current = some id → s'.client.phase ≠ .starting →
      IsLatest id (ns ++ notices x.log))
    (hfree : s'.client.isChanging = false → s'.client.phase ≠ .starting)
    (hhalted : x.server.client.phase = .stopped → x.server.client.active = none →
      ¬ (Moment.step x.server s').Begins → s'.client.phase = .stopped ∧ s'.client.active = none ∧
        s'.around.launches = x.server.around.launches)
    (hbegun : (Moment.step x.server s').Begins → isOpen = false → HeldSince x.log) :
    Tied isOpen (watcher.set s' x) := by
  -- what is said of each moment is said of the step itself and of what was in the journal before
  have hlog {P : Moment → List Moment → Prop} {n : Moment} {earlier : List Moment}
      (hself : n = .step x.server s' → earlier = x.log → P n earlier)
      (hold : n :: earlier <:+ x.log → P n earlier)
      (hn : n :: earlier <:+ .step x.server s' :: x.log) : P n earlier := by
    obtain heq | hn := List.suffix_cons_iff.mp hn
    · obtain ⟨rfl, rfl⟩ := List.cons.inj heq
      exact hself rfl rfl
    · exact hold hn
  have hmem {n : Moment} (hn : n ∈ (watcher.set s' x).log) (hne : n ≠ .step x.server s') : n ∈ x.log :=
    (List.mem_cons.mp hn).resolve_left hne
  have hset : notices (watcher.set s' x).log = ns ++ notices x.log := hnotices
  refine ⟨?_, ?_, hfree, hset ▸ horderly, ?_, ?_, ?_, ?_, fun r hr => ?_, ?_, fun f s hs => ?_, ?_⟩
  · rw [hset]
    exact hactive
  · rw [hset]
    exact hcurrent
  · rw [hset]
    intro j e hj
    obtain hj | hj := List.mem_append.mp hj
    · exact hbounded j e hj
    · exact Nat.lt_of_lt_of_le (h.bounded j e hj) hpast.fresh
  · rw [hset, List.reverse_append, List.map_append, ← h.told, List.append_assoc, ← hevents]
    rfl
  · intro t t' ht
    obtain heq | ht := List.mem_cons.mp ht
    · cases heq
      exact .refl _
    · exact (h.past t t' ht).trans hpast
  · intro g r later earlier hdown
    obtain ⟨-, heq⟩ | ⟨rest, -, hnot, hrest⟩ := DownSince.of_cons hdown
    · cases heq
    · obtain ⟨hphase, hnone, hlaunches⟩ := h.halted g r rest earlier hrest
      obtain ⟨hphase, hnone, hsame⟩ := hhalted hphase hnone hnot
      exact ⟨hphase, hnone, hsame.trans hlaunches⟩
  · exact hpast.shut (h.shut r (hmem hr nofun))
  · intro m earlier hm
    refine hlog (P := fun m earlier => m.Begins → isOpen = false → HeldSince earlier) ?_ (h.begun m earlier) hm
    rintro rfl rfl
    exact hbegun
  · exact h.failed f s (hmem hs nofun)
  · intro n o earlier hm
    refine hlog (P := fun m earlier => m = .ensured n o → Answered earlier n o) ?_ ?_ hm rfl
    · intro hstep _ heq
      cases hstep.symm.trans heq
    · intro hm _
      exact h.answered n o earlier hm

/-- A step without an event. -/
theorem silent (h : Tied isOpen x) (hevents : s'.client.events = x.server.client.events)
    (hpast : Past x.server s')
    (hactive : ∀ id, s'.client.active = some id → x.server.client.active = some id ∧
      s'.client.phase = .running ∧ s'.client.current = some id)
    (hcurrent : ∀ id, s'.client.current = some id → s'.client.phase ≠ .starting →
      x.server.client.current = some id ∧ x.server.client.phase ≠ .starting)
    (hfree : s'.client.isChanging = false → s'.client.phase ≠ .starting)
    (hhalted : x.server.client.phase = .stopped → x.server.client.active = none →
      ¬ (Moment.step x.server s').Begins → s'.client.phase = .stopped ∧ s'.client.active = none ∧
        s'.around.launches = x.server.around.launches)
    (hbegun : (Moment.step x.server s').Begins → isOpen = false → HeldSince x.log) :
    Tied isOpen (watcher.set s' x) := by
  refine h.step [] (notices_silent hevents) (by simpa using hevents) h.orderly nofun hpast (fun id hid => ?_)
    (fun id hid hphase => ?_) hfree hhalted hbegun
  · obtain ⟨hid, hphase, hcurrent⟩ := hactive id hid
    exact ⟨hphase, hcurrent, (h.active id hid).2.2⟩
  · obtain ⟨hid, hphase⟩ := hcurrent id hid hphase
    exact h.current id hid hphase

/-- A step by which someone tells of a channel. -/
theorem emits (h : Tied isOpen x) (hevents : s'.client.events = x.server.client.events ++ [e])
    (habout : Moment.about x.server s' x.log e = some id)
    (horderly : Orderly ((some id, e) :: notices x.log)) (hid : id < s'.client.freshId)
    (hpast : Past x.server s')
    (hactive : ∀ j, s'.client.active = some j → s'.client.phase = .running ∧
      s'.client.current = some j ∧ j = id ∧ ∃ pid, e = .started pid)
    (hcurrent : ∀ j, s'.client.current = some j → j = id ∧ e ≠ .stopped)
    (hphase : s'.client.phase ≠ .starting)
    (hhalted : x.server.client.phase = .stopped → x.server.client.active = none → False) :
    Tied isOpen (watcher.set s' x) := by
  refine h.step [(some id, e)] ?_ hevents horderly (fun j e' hj => ?_) hpast (fun j hj => ?_)
    (fun j hj _ => ?_) (fun _ => hphase) (fun hstopped hnone _ => (hhalted hstopped hnone).elim) fun hbegins => ?_
  · rw [notices_emit hevents, habout]
    rfl
  · cases List.mem_singleton.mp hj
    exact hid
  · obtain ⟨hrunning, hsame, rfl, pid, rfl⟩ := hactive j hj
    exact ⟨hrunning, hsame, pid, rfl⟩
  · obtain ⟨rfl, he⟩ := hcurrent j hj
    exact ⟨e, rfl, he⟩
  · exact absurd hbegins.2 hphase

/-- Something besides a step is written down. -/
theorem note (h : Tied isOpen x) (hm : m.Notes x) : Tied isOpen (x.note m) := by
  have hnotices : notices (x.note m).log = notices x.log := hm.isStill.notices
  refine ⟨?_, ?_, h.free, ?_, ?_, ?_, fun s s' hs => ?_, ?_, fun r hr => ?_, fun n earlier hn => ?_,
    fun f s hs => ?_, fun n o earlier hn => ?_⟩
  · rw [hnotices]
    exact h.active
  · rw [hnotices]
    exact h.current
  · rw [hnotices]
    exact h.orderly
  · rw [hnotices]
    exact h.bounded
  · rw [hnotices]
    exact h.told
  · obtain rfl | hs := List.mem_cons.mp hs
    · exact hm.elim
    · exact h.past s s' hs
  · intro g r later earlier hdown
    obtain ⟨-, rfl⟩ | ⟨rest, -, -, hrest⟩ := DownSince.of_cons hdown
    · obtain ⟨rfl, hphase, hnone, -⟩ := hm
      exact ⟨hphase, hnone, rfl⟩
    · exact h.halted g r rest earlier hrest
  · obtain rfl | hr := List.mem_cons.mp hr
    · exact hm.2.2.2 rfl
    · exact h.shut r hr
  · obtain heq | hn := List.suffix_cons_iff.mp hn
    · obtain ⟨rfl, rfl⟩ := List.cons.inj heq
      exact fun hbegins => absurd hbegins hm.isStill.not_begins
    · exact h.begun n earlier hn
  · obtain rfl | hs := List.mem_cons.mp hs
    · exact hm f rfl
    · exact h.failed f s hs
  · obtain heq | hn := List.suffix_cons_iff.mp hn
    · obtain ⟨rfl, rfl⟩ := List.cons.inj heq
      exact hm
    · exact h.answered n o earlier hn

end Tied

/-- Nothing is different that the journal is about. -/
structure Alike (s s' : Server) : Prop where
  phase : s'.client.phase = s.client.phase
  active : s'.client.active = s.client.active
  current : s'.client.current = s.client.current
  isChanging : s'.client.isChanging = s.client.isChanging
  events : s'.client.events = s.client.events
  fresh : s.client.freshId ≤ s'.client.freshId
  launches : s'.around.launches = s.around.launches
  shut : s.isShutDown = true → s'.isShutDown = true

/-- Nobody has to do with starts and stops meanwhile, nor with the reader. -/
structure Undriven (s s' : Server) : Prop extends Alike s s' where
  reader : s'.client.reader = s.client.reader
  isHeld : s'.starts.isHeld = s.starts.isHeld

theorem Undriven.refl (s : Server) : Undriven s s :=
  ⟨⟨rfl, rfl, rfl, rfl, rfl, Nat.le_refl _, rfl, fun h => h⟩, rfl, rfl⟩

theorem Alike.trans {s'' : Server} (h : Alike s s') (h' : Alike s' s'') : Alike s s'' where
  phase := h'.phase.trans h.phase
  active := h'.active.trans h.active
  current := h'.current.trans h.current
  isChanging := h'.isChanging.trans h.isChanging
  events := h'.events.trans h.events
  fresh := Nat.le_trans h.fresh h'.fresh
  launches := h'.launches.trans h.launches
  shut hshut := h'.shut (h.shut hshut)

theorem Undriven.trans {s'' : Server} (h : Undriven s s') (h' : Undriven s' s'') : Undriven s s'' :=
  ⟨h.toAlike.trans h'.toAlike, h'.reader.trans h.reader, h'.isHeld.trans h.isHeld⟩

theorem undriven_channels (s : Server) (id : ChannelId) (ch : Channel) (n : RequestId) :
    Undriven s { s with client :=
      { s.client with channels := s.client.channels.insert id ch, nextRequest := n } } :=
  ⟨⟨rfl, rfl, rfl, rfl, rfl, s.client.freshId_le_insert id ch n, rfl, fun h => h⟩, rfl, rfl⟩

theorem Undriven.allows {P : Channel → Channel → Prop} (id : ChannelId) : Allows P id Undriven where
  refl := Undriven.refl
  amend s ch _ := undriven_channels s id ch s.client.nextRequest

theorem undriven_post (id : ChannelId) (op : Operation) (params : Json) (s : Server) :
    Undriven s { s with client := (s.client.post id op params).2 } := by
  have hcounted : Undriven s { s with client := { s.client with nextRequest := s.client.nextRequest + 1 } } :=
    ⟨⟨rfl, rfl, rfl, rfl, rfl, Nat.le_refl _, rfl, fun h => h⟩, rfl, rfl⟩
  simp only [Client.post]
  split
  · exact hcounted
  · split
    · exact hcounted
    · exact undriven_channels s id _ _

theorem Tied.alike (h : Tied isOpen x) (hs : Alike x.server s') : Tied isOpen (watcher.set s' x) := by
  have hnot : ¬ (Moment.step x.server s').Begins := fun hbegins => hbegins.1 (hs.phase ▸ hbegins.2)
  refine h.silent hs.events ⟨hs.fresh, fun id _ hnot => hs.current ▸ hnot, hs.shut⟩ (fun id hid => ?_)
    (fun id hid hphase => ?_) (fun hfree => ?_) (fun hphase hnone _ => ?_) fun hbegins => absurd hbegins hnot
  · have hid := hs.active ▸ hid
    obtain ⟨hphase, hcurrent, -⟩ := h.active id hid
    exact ⟨hid, hs.phase.trans hphase, hs.current.trans hcurrent⟩
  · exact ⟨hs.current ▸ hid, hs.phase ▸ hphase⟩
  · rw [hs.phase]
    exact h.free (hs.isChanging ▸ hfree)
  · exact ⟨hs.phase.trans hphase, hs.active.trans hnone, hs.launches⟩

end LanguageServer.Server.Journal
