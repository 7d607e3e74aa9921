import LanguageServer.Proofs.Server.Starting
import LanguageServer.Proofs.Server.Succession

/-! Who asks for the process to be up, and who stops it for good. -/
namespace LanguageServer.Server.Journal

open Analyzer

variable {α β : Type} {isOpen : Bool} {w v : Ranks} {x y z : Watched} {s' : Server} {i me : TaskId} {h : Helm}
  {l : Life} {r : Server} {later earlier : List Moment} {o : Except Failure Unit} {n : Nat}

theorem alike_starts (s : Server) (starts : StartHistory) : Alike s { s with starts } :=
  ⟨rfl, rfl, rfl, rfl, rfl, Nat.le_refl _, rfl, fun h => h⟩

theorem undriven_planStart (now : Instant) (s : Server) : Undriven s (planStart now s).2 := by
  obtain ⟨starts, hstarts, hheld⟩ := planStart_eq now s
  rw [hstarts]
  exact ⟨alike_starts s starts, rfl, hheld⟩

/-- Nobody decides on a start while the process is down for good. -/
theorem Tied.refuses (ht : Tied isOpen x) (hdown : DownSince x.log true r later earlier) :
    x.server.client.status = .stopped ∧ ∀ now, (planStart now x.server).1 = .refused .terminated := by
  obtain ⟨hphase, -⟩ := ht.halted true r later earlier hdown
  have hshut := ht.shut r (hdown.log ▸ List.mem_append_right _ List.mem_cons_self)
  have hstatus : x.server.client.status = .stopped := by simp [Client.status, hphase]
  exact ⟨hstatus, fun now => by simp [planStart, hstatus, hshut, Status.isRunning]⟩

/-- What was not so when someone asked, or later, was not so all the time. -/
theorem answered_of_up (hup : ∀ r later earlier, ¬ DownSince x.log true r later earlier) (hlog : x.log <:+ y.log)
    (hn : n ≤ x.log.length) : Answered y.log n o := by
  intro r later earlier hdown hlength
  obtain ⟨rest, hrest⟩ := hdown.of_suffix hlog (Nat.lt_of_lt_of_le hlength hn)
  exact absurd hrest (hup r rest earlier)

section Steps

variable (hs : Sound isOpen w x)
include hs

theorem Sound.tell : Sound isOpen (w.tell x.log) x := ⟨hs.toTied, { hs.toStaged with }, List.suffix_rfl⟩

/-- Someone looks after a start from now on. -/
theorem Sound.seize (hme : w.role me = .caller .away l) (hfree : x.server.starts.isHeld = false) :
    Sound isOpen (w.cast me (.caller .keeping l))
      (watcher.set { x.server with starts := { x.server.starts with isHeld := true } } x) := by
  refine hs.steer hme (alike_starts _ _) rfl (fun i _ hhelm => ?_) (fun _ => rfl) nofun
  cases hfree.symm.trans (hs.held i hhelm)

theorem Sound.cede (hme : w.role me = .caller h l) (hh : h ≠ .away) :
    Sound isOpen (w.cast me (.caller .away l))
      (watcher.set { x.server with starts := { x.server.starts with isHeld := false } } x) := by
  refine hs.steer hme (alike_starts _ _) rfl (fun i hi hhelm => ?_) (fun hne => absurd rfl hne) nofun
  have hme : (w.role me).helm ≠ .away := by rwa [hme]
  exact absurd (hs.sole i me hhelm hme) hi

/-- Who has decided on a start was free to. -/
theorem Sound.decide (hme : w.role me = .caller .keeping l) (now : Instant)
    (hplan : (planStart now x.server).1 = .tried) :
    Sound isOpen (w.cast me (.caller .tried l)) (watcher.set (planStart now x.server).2 x) := by
  obtain ⟨starts, hstarts, hheld⟩ := planStart_eq now x.server
  have hup (r : Server) (later earlier : List Moment) : ¬ DownSince x.log true r later earlier := by
    intro hdown
    cases hplan.symm.trans ((hs.refuses hdown).2 now)
  have hhelm : (w.role me).helm ≠ .away := by
    rw [hme]
    exact nofun
  have hheld := hheld.trans (hs.held me hhelm)
  rw [hstarts]
  refine hs.steer hme (alike_starts _ _) rfl (fun i hi hne => absurd (hs.sole i me hne hhelm) hi) (fun _ => hheld)
    fun _ => ?_
  exact HeldSince.step (fun r later earlier hdown => absurd hdown (hup r later earlier)) hheld

end Steps

theorem steps_steer (hme : w.role me = .caller h l) (h' : Helm) :
    (pact isOpen).Steps me w (w.cast me (.caller h' l)) :=
  ⟨w.told, .caller h' l, List.suffix_rfl, by rw [hme]; rfl, rfl⟩

theorem Answered.step {s : Server} {log : List Moment} (h : Answered log n o) :
    Answered (.step s s' :: log) n o := by
  intro r later earlier hdown hlength
  obtain ⟨-, heq⟩ | ⟨rest, -, -, hrest⟩ := hdown.of_cons
  · cases heq
  · exact h r rest earlier hrest hlength

theorem behaves_time : (Task.act (fun now s => (s.time now, s)) .done : Job Instant).Behaves Undriven :=
  ⟨⟨fun _ => Undriven.refl, fun _ => trivial⟩, fun _ => trivial⟩

/-- What someone does who looks after a start. -/
def attempt : Job (Except Failure Unit) := do
  let now ← Task.act (fun now s => (s.time now, s)) .done
  match ← Task.update (planStart now) with
  | .running => return .ok ()
  | .refused f => return .error f
  | .tried =>
    match ← start with
    | .error (.unavailable reason) =>
      Task.modify fun s =>
        { s with starts := { s.starts with failed := some (now, .unavailable reason) } }
      return .error (.unavailable reason)
    | outcome => return outcome

theorem ensureStarted_eq : ensureStarted = (do
    if ← Task.read (·.client.status.isRunning) then return .ok ()
    startingUp attempt) := rfl

/-- Whoever looks after a start tells the truth when the process is down for good. -/
theorem honors_attempt (hme : w.role me = .caller .keeping .out) (hs : Sound isOpen w x)
    {Q : Except Failure Unit → Ranks → Watched → Prop} (hclosed : Closed isOpen me Q)
    (hQ : ∀ o h v y, v.role me = .caller h .out → h ≠ .away → Sound isOpen v y → w.told <:+ v.told →
      Answered y.log w.told.length o → Q o v y) : (attempt.zoom watcher).Honors (pact isOpen) me false Q w x := by
  unfold attempt
  rw [Task.zoom_then]
  refine (Task.honors_then _ _ _).mpr (honors_aside (behaves_time) hs (hme ▸ isLive_caller) fun now v z hv hs hw => ?_)
  have hme := hv.trans hme
  rw [Task.zoom_then]
  refine (Task.honors_then _ _ _).mpr (Task.honors_zoom_update ?_)
  have hget : watcher.get z = z.server := rfl
  rw [hget]
  have hplanned : Sound isOpen v (watcher.set (planStart now z.server).2 z) := hs.undriven (undriven_planStart _ _)
  have hn : w.told.length ≤ z.log.length := Nat.le_trans hw.length_le hs.log.length_le
  have hup (hplan : (planStart now z.server).1 ≠ .refused .terminated) (r : Server) (later earlier : List Moment) :
      ¬ DownSince z.log true r later earlier := fun hdown => hplan ((hs.refuses hdown).2 now)
  cases hplan : (planStart now z.server).1 with
  | running =>
    refine hQ _ _ _ _ hme nofun hplanned hw (answered_of_up (hup ?_) (List.suffix_cons _ _) hn)
    rw [hplan]
    exact nofun
  | refused f =>
    refine hQ _ _ _ _ hme nofun hplanned hw ?_
    by_cases hf : f = .terminated
    · rw [hf]
      exact fun _ _ _ _ _ => rfl
    · refine answered_of_up (hup ?_) (List.suffix_cons _ _) hn
      rw [hplan]
      exact fun h => hf (StartPlan.refused.inj h)
  | tried =>
    -- the journal of the decision is told, since the process was not down for good then
    have hdecided := (hs.decide hme now hplan).tell
    have hrole := (v.tell (watcher.set (planStart now z.server).2 z).log).role_cast_self me (.caller .tried .out)
    have hlonger : v.told <:+ (watcher.set (planStart now z.server).2 z).log := hplanned.log
    refine Task.Honors.of_step (pact_isFair isOpen) ?_ ⟨_, .caller .tried .out, hlonger, by rw [hme]; rfl, rfl⟩ hclosed
    rw [Task.zoom_then]
    refine (Task.honors_then _ _ _).mpr (honors_start (.inl rfl) hrole hdecided (hclosed.honors _) ?_)
    intro o u y hme hs hu _
    have hend {t : Job (Except Failure Unit)} (ht : t.Behaves Undriven) :
        (t.zoom watcher).Honors (pact isOpen) me false Q u y := by
      refine honors_aside ht hs (hme ▸ isLive_caller) fun o u' y hu' hs hlater => ?_
      have hlog := (hu.trans hlater).trans hs.log
      refine hQ _ _ _ _ (hu'.trans hme) nofun hs (hw.trans (hlonger.trans (hu.trans hlater)))
        (answered_of_up (hup ?_) ((List.suffix_cons _ _).trans hlog) hn)
      rw [hplan]
      exact nofun
    split
    · exact hend (.bind (.modify fun s => ⟨alike_starts s _, rfl, rfl⟩) fun _ => .done _)
    · exact hend (.done _)

/-- Whoever asks for the process to be up is told the truth when it is down for good. -/
theorem honors_ensureStarted {waited : Bool} (hme : w.role me = .caller .away .out) (hs : Sound isOpen w x)
    {Q : Except Failure Unit → Ranks → Watched → Prop} (hclosed : Closed isOpen me Q)
    (hQ : ∀ o v y, v.role me = .caller .away .out → Sound isOpen v y → w.told <:+ v.told →
      Answered y.log w.told.length o → Q o v y) :
    (ensureStarted.zoom watcher).Honors (pact isOpen) me waited Q w x := by
  have hread : Sound isOpen w (watcher.set x.server x) := hs.undriven (.refl _)
  rw [ensureStarted_eq, Task.zoom_then]
  refine (Task.honorsFrom_bind _ _ _ (.inl rfl)).mpr (Task.honors_zoom_read ?_)
  split
  · next hrunning =>
    refine hQ _ _ _ hme hread List.suffix_rfl (answered_of_up (fun r later earlier hdown => ?_)
      (List.suffix_cons _ _) hs.log.length_le)
    have hstatus := (hs.refuses hdown).1
    have hrunning : x.server.client.status.isRunning = true := hrunning
    rw [hstatus] at hrunning
    cases hrunning
  · refine honors_exclusive hme hread fun v y hme hs hv hfree => ?_
    have hclosed : Closed isOpen me fun o u z => Q o u
        (watcher.set { z.server with starts := { z.server.starts with isHeld := false } } z) :=
      fun o _ _ _ hu h => hclosed o _ _ _ hu h
    refine Task.Honors.of_step (pact_isFair isOpen) ?_ (steps_steer hme .keeping) hclosed
    have hrole := World.role_cast_self v me (.caller .keeping .out)
    refine honors_attempt hrole (hs.seize hme hfree) hclosed fun o h u z hme hh hs hu ho => ?_
    refine hclosed o u _ z (steps_steer hme .away) ?_
    refine hQ o _ _ (World.role_cast_self _ _ _) (hs.cede hme hh) (hv.trans hu) (Answered.step ?_)
    exact fun r later earlier hdown hlength => ho r later earlier hdown (Nat.lt_of_lt_of_le hlength hv.length_le)

/-- Starts the process and writes down what came of it. -/
def tryStart : Task Watched (Except Failure Unit) := do
  let o ← start.zoom watcher
  Task.modify fun x => x.note (.started o x.server)
  return o

/-- Stops the process and writes down that it is stopped. -/
def halt : Task Watched Unit := do
  stop.zoom watcher
  Task.modify fun x => x.note (.stopped false x.server)

/-- Stops the process for good, and writes down that it is stopped if nobody has begun to before. -/
def shut : Task Watched Unit := do
  let isLate ← Task.read (·.server.isShutDown)
  shutDown.zoom watcher
  if isLate then return
  Task.modify fun x => x.note (.stopped true x.server)

/-- Asks for the process to be up and writes down the outcome. -/
def ensure : Task Watched (Except Failure Unit) := do
  let length ← Task.read (·.log.length)
  let o ← ensureStarted.zoom watcher
  Task.modify (·.note (.ensured length o))
  return o

section Noted

variable {waited : Bool} (hme : w.role me = .caller .away .out) (hs : Sound isOpen w x)
include hme hs

theorem honors_tryStart (hopen : isOpen = true) {Q : Except Failure Unit → Ranks → Watched → Prop}
    (hclosed : Closed isOpen me Q) (hQ : ∀ o v y, v.role me = .caller .away .out → Sound isOpen v y → Q o v y) :
    tryStart.Honors (pact isOpen) me waited Q w x := by
  refine (Task.honorsFrom_bind _ _ _ (.inl rfl)).mpr ?_
  refine honors_start (.inr hopen) hme hs (hclosed.honors _) fun o v y hme hs _ ho => ?_
  have hnotes : (Moment.started o y.server).Notes y := by
    rintro f rfl
    exact ho
  exact fun _ _ => hQ o v _ hme (hs.note hnotes)

theorem honors_halt {Q : Unit → Ranks → Watched → Prop} (hclosed : Closed isOpen me Q)
    (hQ : ∀ a v y, v.role me = .caller .away .out → Sound isOpen v y → Q a v y) :
    halt.Honors (pact isOpen) me waited Q w x := by
  refine (Task.honorsFrom_bind _ _ _ (.inl rfl)).mpr ?_
  refine honors_stop hme hs (hclosed.honors _) fun _ v y hme hs _ hstopped => ?_
  have hnotes : (Moment.stopped false y.server).Notes y := ⟨rfl, hstopped.1, hstopped.2, nofun⟩
  exact fun _ _ => hQ () v _ hme (hs.note hnotes)

theorem honors_shut {Q : Unit → Ranks → Watched → Prop} (hclosed : Closed isOpen me Q)
    (hQ : ∀ a v y, v.role me = .caller .away .out → Sound isOpen v y → Q a v y) :
    shut.Honors (pact isOpen) me waited Q w x := by
  refine (Task.honorsFrom_bind _ _ _ (.inl rfl)).mpr (Task.honors_read ?_)
  unfold shutDown
  rw [Task.zoom_then]
  refine (Task.honors_then _ _ _).mpr ((Task.honors_then _ _ _).mpr (Task.honors_zoom_update ?_))
  have hundriven : Undriven x.server { x.server with isShutDown := true } :=
    ⟨⟨rfl, rfl, rfl, rfl, rfl, Nat.le_refl _, rfl, fun _ => rfl⟩, rfl, rfl⟩
  have hs := hs.undriven hundriven
  have hget : watcher.get x = x.server := rfl
  rw [hget]
  cases hlate : x.server.isShutDown with
  | true => exact hQ () _ _ hme hs
  | false =>
    -- the step that shuts the server down is told, so that it is still known when the process is stopped
    have hlonger : w.told <:+ (watcher.set { x.server with isShutDown := true } x).log := hs.log
    have hrest : Closed isOpen me fun (a : Unit) v y => Task.Honors (pact isOpen) me false
        (Task.modify fun x => x.note (.stopped true x.server)) Q v y := hclosed.honors _
    refine Task.Honors.of_step (pact_isFair isOpen) ?_ ⟨_, _, hlonger, by rw [hme], rfl⟩ hrest
    refine honors_stop (World.role_cast_self _ _ _) ?_ hrest fun _ v y hme hs hv hstopped => ?_
    · exact hme ▸ (World.cast_role _ me).symm ▸ hs.tell
    · have hpast := hs.past x.server { x.server with isShutDown := true }
        ((hv.trans hs.log).subset List.mem_cons_self)
      have hnotes : (Moment.stopped true y.server).Notes y :=
        ⟨rfl, hstopped.1, hstopped.2, fun _ => hpast.shut rfl⟩
      exact fun _ _ => hQ () v _ hme (hs.note hnotes)

theorem honors_ensure {Q : Except Failure Unit → Ranks → Watched → Prop}
    (hclosed : Closed isOpen me Q) (hQ : ∀ o v y, v.role me = .caller .away .out → Sound isOpen v y → Q o v y) :
    ensure.Honors (pact isOpen) me waited Q w x := by
  refine (Task.honorsFrom_bind _ _ _ (.inl rfl)).mpr (Task.honors_read ?_)
  refine Task.Honors.of_step (pact_isFair isOpen) ?_ ⟨x.log, w.role me, hs.log, rfl, rfl⟩ hclosed
  have hs : Sound isOpen ((w.tell x.log).cast me (w.role me)) x := (World.cast_role (w.tell x.log) me).symm ▸ hs.tell
  have hrole := (World.role_cast_self (w.tell x.log) me (w.role me)).trans hme
  refine (Task.honors_then _ _ _).mpr (honors_ensureStarted hrole hs (hclosed.honors _) fun o v y hme hs _ ho => ?_)
  have hnotes : (Moment.ensured x.log.length o).Notes y := ho
  exact fun _ _ => hQ o v _ hme (hs.note hnotes)

end Noted

end LanguageServer.Server.Journal
