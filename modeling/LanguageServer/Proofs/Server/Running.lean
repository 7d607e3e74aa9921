import LanguageServer.Proofs.Server.Lifecycle
import LanguageServer.Proofs.Server.Starting

/-! All runs of tasks that start, stop and ask the analysis process, and when its status says that it is
up. -/
namespace LanguageServer.Server.Uptime

open Analyzer

variable {α : Type} {w : World Tale Duty} {s : Server} {i me : TaskId}

/-- Tasks that change whether the process is up only by starting and stopping it. -/
inductive Drives : {α : Type} → Job α → Prop
  | keeps {α : Type} {t : Job α} : t.Behaves Steady → Drives t
  | start : Drives start
  | stop : Drives stop
  | bind {α β : Type} {t : Job α} {g : α → Job β} : Drives t → (∀ a, Drives (g a)) → Drives (t.bind g)
  | fork {t : Job Unit} : Drives t → Drives (Task.fork t)
  | startingUp {α : Type} {t : Job α} : Drives t → Drives (startingUp t)

theorem drives_request (op : Operation) (params : Json) (read : Json → Option α) :
    Drives (request op params read) :=
  .keeps (behaves_request Steady.allows (fun id s => s.client.sameStanding_post id op params) read)

theorem client_planStart (now : Instant) (s : Server) : (planStart now s).2.client = s.client := by
  obtain ⟨starts, hstarts, -⟩ := planStart_eq now s
  rw [hstarts]

theorem drives_ensureStarted : Drives ensureStarted := by
  refine .bind (.keeps (.read Steady.refl _)) fun isUp => ?_
  split
  · exact .keeps (.done _)
  · have hplan (now : Instant) (s : Server) : Steady s (planStart now s).2 := by
      rw [Steady, client_planStart]
      exact .refl _
    refine .startingUp (.bind (.keeps ⟨⟨fun _ => Steady.refl, fun _ => trivial⟩, fun _ => trivial⟩) ?_)
    intro now
    refine .bind (.keeps (.update (hplan now))) fun plan => ?_
    cases plan with
    | running => exact .keeps (.done _)
    | refused f => exact .keeps (.done _)
    | tried =>
      refine .bind .start fun outcome => ?_
      split
      · exact .keeps (.bind (.modify fun _ => .refl _) fun _ => .done _)
      · exact .keeps (.done _)

theorem Drives.honors {t : Job α} (ht : Drives t) {waited : Bool} (hs : Sound w s.client)
    (hme : w.role me = .guest) {Q : α → World Tale Duty → Server → Prop}
    (hsteps : ∀ a w v s, pact.Steps me w v → Q a v s → Q a w s)
    (hQ : ∀ a v s, v.role me = .guest → Sound v s.client → Q a v s) :
    t.Honors pact me waited Q w s := by
  induction ht generalizing me w s waited with
  | keeps ht =>
    refine ht.keeps.honors pact_hosts ht.dropsNone hs (hme ▸ isLive_guest) fun a v s hv hs => ?_
    exact hQ a v s (hv.2.trans hme) hs
  | start => exact honors_start hs hme hsteps hQ
  | stop => exact honors_stop hs hme hsteps hQ
  | bind _ _ iht ihg =>
    refine Task.Honors.bind_of_done (fun a _ => ihg a hs hme hsteps hQ) (iht hs hme ?_ ?_)
    · exact fun a w v s hv hrest => hrest.of_step pact_isFair hv hsteps
    · exact fun a v s hme hs => ihg a hs hme hsteps hQ
  | fork _ ih =>
    refine pact_hosts.honors_fork (fun i v hv u s hu hs => ?_) hs
      fun i v hv hs => hQ i v _ (hv.2.trans hme) hs
    refine ih hs (hu.2.trans hv) (fun _ w v s hv h => h.of_step pact_isFair hv) ?_
    exact fun _ u s hu hs => ⟨u.told, rfl, pact_hosts.leaves u s i hu hs⟩
  | startingUp _ ih =>
    refine (Task.honorsFrom_bind _ _ _ (.inl rfl)).mpr (Task.honors_await ?_)
    refine .of_since pact_isFair waited hs (hme ▸ isLive_guest) fun v s hv hs _ s' hfree => ?_
    obtain ⟨-, heq⟩ := Option.ite_none_right_eq_some.mp hfree
    cases heq
    have hme : v.role me = .guest := hv.2.trans hme
    refine fun _ _ => ⟨fun hloose => ?_, ih ?_ hme ?_ ?_⟩
    · rw [hme] at hloose
      cases hloose
    · exact hs
    · exact fun a w v s hv h => hsteps a w v _ hv h
    · exact fun a u s hu hs => hQ a u _ hu hs

theorem Drives.ready {t : Job Unit} (ht : Drives t) (hi : w.role i = .guest) : pact.Ready i w t := by
  intro v s hv hs
  refine ht.honors hs (hv.2.trans hi) (fun _ w v s hv h => h.of_step pact_isFair hv) ?_
  exact fun _ u s hu hs => ⟨u.told, rfl, pact_hosts.leaves u s i hu hs⟩

/-- The runs of a server, with the clients that there have been, newest first. Tasks join and move in
any order; between two moves the process reads, writes and ends, and time passes. -/
inductive Run : List Client → Machine Server → Prop
  | start (s : Server) : s.client = .new → Run [.new] (Machine.start s)
  | spawn {h : List Client} {m : Machine Server} {t : Job Unit} :
    Run h m → Drives t → Run h (m.spawn t)
  | other {h : List Client} {m : Machine Server} (s : Server) (now : Instant) : Run h m →
    Steady m.state s → Run (s.client :: h) { m with state := s, now := now }
  | move {h : List Client} {m n : Machine Server} (i : TaskId) : Run h m → m.step? i = some n →
    Run (n.state.client :: h) n

theorem Run.binds {h : List Client} {m : Machine Server} (hr : Run h m) :
    ∃ w, pact.Binds w m ∧ w.told = ⟨h, false⟩ := by
  induction hr with
  | start s hs =>
    refine ⟨⟨⟨[.new], false⟩, fun _ => .unborn⟩, ⟨?_, trivial, ?_, ?_, List.nodup_nil, ?_,
      fun _ _ => rfl⟩, rfl⟩
    · refine ⟨fun _ => ⟨.new, List.mem_cons_self, ?_⟩, fun i => trivial, fun i hi => ?_,
        fun i j hi => ?_, fun id hid => ?_, fun hphase => ?_, fun i hi => ?_⟩
      · rw [Machine.start, hs]
        exact .refl _
      · cases hi
      · cases hi
      · simp [Machine.start, hs, Client.new] at hid
      · simp [Machine.start, hs, Client.new] at hphase
      · simp [Machine.start, hs, Client.new] at hi
    · simp [Machine.start]
    · simp [Machine.start]
    · simp [Machine.start, Pact.IsLive, pact]
  | @spawn h m t _ ht ih =>
    obtain ⟨w, hm, hw⟩ := ih
    have hunborn : w.role m.next = .unborn := hm.unborn _ (Nat.le_refl _)
    have hnext : pact.others w.told w.told := ⟨List.suffix_rfl, by rw [hw]⟩
    exact ⟨_, hm.spawn pact_isFair hnext trivial isLive_guest
      (pact_hosts.arrives w _ _ hunborn hm.holds) (ht.ready (World.role_cast_self _ _ _)), hw⟩
  | @other h m s now _ hs ih =>
    obtain ⟨w, hm, hw⟩ := ih
    have hnext : pact.others w.told ⟨s.client :: h, false⟩ := ⟨hw ▸ List.suffix_cons _ _, rfl⟩
    refine ⟨_, hm.others pact_isFair hnext ?_ trivial, rfl⟩
    exact (hm.holds.same hs).later (hw ▸ List.suffix_cons _ _) ⟨_, List.mem_cons_self, .refl _⟩
  | @move h m n i _ hn ih =>
    obtain ⟨w, hm, hw⟩ := ih
    have hcalm : pact.others w.told w.told := ⟨List.suffix_rfl, by rw [hw]⟩
    obtain ⟨v, hv, hn⟩ := hm.step pact_isFair hcalm hn
    have hclients : v.told.clients = h := by
      have hv : v.told.clients = w.told.clients := hv
      rw [hv, hw]
    have hnext : pact.others v.told ⟨n.state.client :: h, false⟩ :=
      ⟨hclients ▸ List.suffix_cons _ _, rfl⟩
    refine ⟨_, hn.others pact_isFair hnext ?_ trivial, rfl⟩
    exact hn.holds.later (hclients ▸ List.suffix_cons _ _) ⟨_, List.mem_cons_self, .refl _⟩

/-- When the status says that the process is up, its channel is active and takes requests; or the
process was gone before its channel became the active one, while it was being probed; or the process
is being stopped. -/
theorem Run.up_or_overtaken {h : List Client} {m : Machine Server} (hr : Run h m)
    (hup : m.state.client.status.isRunning = true) :
    (∃ id, m.state.client.active = some id ∧ (m.state.client.channel id).isDead = false) ∨
      (∃ id, m.state.client.active = some id ∧ Overtaken h id) ∨
      (m.state.client.active = none ∧ m.state.client.isChanging = true) := by
  obtain ⟨w, hm, hw⟩ := hr.binds
  have hs : Sound w m.state.client := hm.holds
  have hphase : m.state.client.phase = .running := by
    unfold Client.status at hup
    split at hup <;> first | assumption | cases hup
  cases hactive : m.state.client.active with
  | none =>
    obtain ⟨i, hi⟩ := hs.idle hphase hactive
    exact .inr (.inr ⟨rfl, hs.locked i (hi ▸ rfl)⟩)
  | some id =>
    obtain ⟨-, -, hdead⟩ := hs.active id hactive
    cases hid : (m.state.client.channel id).isDead with
    | false => exact .inl ⟨id, rfl, hid⟩
    | true =>
      refine .inr (.inl ⟨id, rfl, ?_⟩)
      have htaken := hdead hid
      rw [hw] at htaken
      exact htaken

section Hasty

/-- The process has answered its first request and closed its output. -/
def answered (s : Server) : Server :=
  clientLens.modify (Client.updateChannel 0 fun ch =>
    { ch with link := { ch.link with
        output := "\x7b\"id\":1,\"result\":\x7b\x7d\x7d\n".toUTF8.toList, isMute := true } }) s

abbrev Stage := List Client × Machine Server

def Stage.moved (i : TaskId) (r : Stage) : Option Stage :=
  (r.2.step? i).map fun n => (n.state.client :: r.1, n)

def Stage.answered (r : Stage) : Stage :=
  ((Uptime.answered r.2.state).client :: r.1, { r.2 with state := Uptime.answered r.2.state })

theorem run_stage_moved {r q : Stage} (hr : Run r.1 r.2) (hq : Stage.moved i r = some q) :
    Run q.1 q.2 := by
  obtain ⟨n, hn, rfl⟩ := Option.map_eq_some_iff.mp hq
  exact hr.move i hn

theorem run_stage_answered {r : Stage} (hr : Run r.1 r.2) : Run r.answered.1 r.answered.2 :=
  hr.other _ r.2.now (Client.sameStanding_insert rfl rfl)

def hasty : Server := .new ⟨.empty, [], .scripted none, [], 0, none⟩ {}

def started : Stage := ([.new], (Machine.start hasty).spawn (start.bind fun _ => .done ()))

/-- The process ends right after its first answer: the status says for good that it is up, and its
channel takes no requests. -/
theorem Run.up_or_overtaken_hasty : ∃ r : Stage, Run r.1 r.2 ∧ r.2.tasks.map (·.1) = [] ∧
    r.2.state.client.status = .idle ∧
    ((∃ id, r.2.state.client.active = some id ∧ (r.2.state.client.channel id).isDead = false) ∨
      (∃ id, r.2.state.client.active = some id ∧ Overtaken r.1 id) ∨
      (r.2.state.client.active = none ∧ r.2.state.client.isChanging = true)) ∧
    (r.2.state.client.channel 0).isDead = true := by
  have hmoves : (((((((Stage.moved 0 started).bind fun r => Stage.moved 1 r.answered).bind
      (Stage.moved 1)).bind (Stage.moved 1)).bind (Stage.moved 1)).bind (Stage.moved 1)).bind
        (Stage.moved 0)).map (fun r => r.2.tasks.map (·.1) == [] &&
          r.2.state.client.status == .idle && (r.2.state.client.channel 0).isDead) = some true := by
    decide +kernel
  obtain ⟨r, hr, hend⟩ := Option.map_eq_some_iff.mp hmoves
  obtain ⟨r₅, hr₅, hr⟩ := Option.bind_eq_some_iff.mp hr
  obtain ⟨r₄, hr₄, hr₅⟩ := Option.bind_eq_some_iff.mp hr₅
  obtain ⟨r₃, hr₃, hr₄⟩ := Option.bind_eq_some_iff.mp hr₄
  obtain ⟨r₂, hr₂, hr₃⟩ := Option.bind_eq_some_iff.mp hr₃
  obtain ⟨r₁, hr₁, hr₂⟩ := Option.bind_eq_some_iff.mp hr₂
  obtain ⟨r₀, hr₀, hr₁⟩ := Option.bind_eq_some_iff.mp hr₁
  have hstarted : Run started.1 started.2 := (Run.start hasty rfl).spawn (.bind .start fun _ =>
    .keeps (.done ()))
  have hheard := run_stage_moved (run_stage_answered (run_stage_moved hstarted hr₀)) hr₁
  have hended := run_stage_moved (run_stage_moved (run_stage_moved hheard hr₂) hr₃) hr₄
  have hrun := run_stage_moved (run_stage_moved hended hr₅) hr
  rw [Bool.and_eq_true, Bool.and_eq_true] at hend
  obtain ⟨⟨htasks, hidle⟩, hdead⟩ := hend
  have hidle := eq_of_beq hidle
  exact ⟨r, hrun, eq_of_beq htasks, hidle, hrun.up_or_overtaken (by rw [hidle]; rfl), hdead⟩

end Hasty
end LanguageServer.Server.Uptime
