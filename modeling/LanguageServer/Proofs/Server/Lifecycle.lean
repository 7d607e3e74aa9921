import LanguageServer.Proofs.Server.Uptime

/-! Starting, stopping and reading from the analysis process, step by step. Each step takes the task
that makes it from one part to another. -/
namespace LanguageServer.Server.Uptime

open Analyzer

variable {α β : Type} {w v : World Tale Duty} {s : Server} {i me : TaskId} {r : Duty} {id : ChannelId}

theorem pact_hosts : pact.Hosts .guest Steady where
  fair := pact_isFair
  live := isLive_guest
  keeps _ _ _ hsteady hs := hs.same hsteady
  arrives w s i hi hs := by
    have hi : w.role i = .unborn := hi
    refine Sound.cast hs (hi ▸ rfl) rfl fun hreader => ?_
    obtain h | h := hs.reader i hreader <;> cases hi.symm.trans h
  leaves w s i hi hs := Sound.cast hs (hi ▸ rfl) rfl fun _ => .inr rfl

theorem steps_turned (hr : r.isReader = (w.role me).isReader) :
    pact.Steps me w ((w.tell w.told.turned).cast me r) := ⟨w.told.turned, r, rfl, hr, rfl⟩

/-- The task takes whoever has the part `r` to another part, which what it ends with decides. -/
def Serves (t : Job α) (r : Duty) (r' : α → Duty) : Prop :=
  ∀ (me : TaskId) (w : World Tale Duty) (s : Server) (Q : α → World Tale Duty → Server → Prop),
    w.role me = r → Sound w s.client →
    (∀ a w v s, pact.Steps me w v → Q a v s → Q a w s) →
    (∀ a v s, v.role me = r' a → Sound v s.client → Q a v s) → t.Honors pact me false Q w s

namespace Serves

theorem done (a : α) : Serves (.done a) r fun _ => r := fun _ _ _ _ hme hs _ hQ => hQ a _ _ hme hs

theorem bind {t : Job α} {g : α → Job β} {r' : α → Duty} {r'' : β → Duty} (ht : Serves t r r')
    (hg : ∀ a, Serves (g a) (r' a) r'') : Serves (t >>= g) r r'' := by
  intro me w s Q hme hs hsteps hQ
  rw [Task.honors_then]
  refine ht me w s _ hme hs (fun a w v s hv hrest => ?_) fun a v s hme hs => ?_
  · exact hrest.of_step pact_isFair hv hsteps
  · exact hg a me v s Q hme hs hsteps hQ

theorem of_behaves {t : Job α} (ht : t.Behaves Steady) (hr : pact.IsLive r) :
    Serves t r fun _ => r := by
  intro me w s Q hme hs _ hQ
  refine ht.keeps.honors pact_hosts ht.dropsNone hs (hme ▸ hr) fun a v s hv hs => ?_
  exact hQ a v s (hv.2.trans hme) hs

theorem read (f : Server → α) {r' : α → Duty} (hr : ∀ a, (r' a).isReader = r.isReader)
    (h : ∀ me w s, w.role me = r → Sound w s.client →
      Sound ((w.tell w.told.turned).cast me (r' (f s))) s.client) : Serves (Task.read f) r r' := by
  intro me w s Q hme hs hsteps hQ
  have hstep := h me w s hme hs
  refine Task.honors_read (hsteps _ _ _ _ (steps_turned ?_) (hQ _ _ _ ?_ hstep))
  · exact hme ▸ hr _
  · exact World.role_cast_self _ _ _

theorem update (f : Server → α × Server) {r' : α → Duty} (hr : ∀ a, (r' a).isReader = r.isReader)
    (h : ∀ me w s, w.role me = r → Sound w s.client →
      Sound ((w.tell w.told.turned).cast me (r' (f s).1)) (f s).2.client) :
    Serves (Task.update f) r r' := by
  intro me w s Q hme hs hsteps hQ
  have hstep := h me w s hme hs
  refine Task.honors_update (hsteps _ _ _ _ (steps_turned ?_) (hQ _ _ _ ?_ hstep))
  · exact hme ▸ hr _
  · exact World.role_cast_self _ _ _

theorem onClient (f : Client → Client) (r' : Duty) (hr : r'.isReader = r.isReader)
    (h : ∀ me w c, w.role me = r → Sound w c → Sound ((w.tell w.told.turned).cast me r') (f c)) :
    Serves (onClient f) r fun _ => r' := by
  intro me w s Q hme hs hsteps hQ
  have hstep := h me w _ hme hs
  refine Task.honors_modify (hsteps _ _ _ _ (steps_turned ?_) (hQ _ _ _ ?_ hstep))
  · exact hme ▸ hr
  · exact World.role_cast_self _ _ _

end Serves

/-- Who starts or stops the process has the lock meanwhile. -/
theorem honors_changing {body : Job α} (hbody : Serves body .holding fun _ => .holding) {waited : Bool}
    (hs : Sound w s.client) (hme : w.role me = .guest) {Q : α → World Tale Duty → Server → Prop}
    (hsteps : ∀ a w v s, pact.Steps me w v → Q a v s → Q a w s)
    (hQ : ∀ a v s, v.role me = .guest → Sound v s.client → Q a v s) :
    (changing body).Honors pact me waited Q w s := by
  refine (Task.honorsFrom_bind _ _ _ (.inl rfl)).mpr (Task.honors_await ?_)
  refine .of_since pact_isFair waited hs (hme ▸ isLive_guest) fun v s hv hs _ s' hfree => ?_
  have hme : v.role me = .guest := hv.2.trans hme
  obtain ⟨hfree, heq⟩ := Option.ite_none_right_eq_some.mp hfree
  cases heq
  have hheld := hs.acquire (by simpa using hfree) hme
  have hrole : ((v.tell v.told.turned).cast me .holding).role me = .holding := World.role_cast_self _ _ _
  refine fun _ _ => ⟨fun hloose => ?_, ?_⟩
  · rw [hme] at hloose
    cases hloose
  · refine Task.Honors.of_step pact_isFair (hbody me _ _ _ hrole hheld ?_ fun a u s hu hs => ?_)
      (steps_turned (by rw [hme]; rfl)) ?_
    · exact fun a w v s hv h => hsteps a w v _ hv h
    · have hreleased := hs.release hu
      refine hsteps a _ _ _ (steps_turned (by rw [hu]; rfl)) (hQ a _ _ ?_ hreleased)
      exact World.role_cast_self _ _ _
    · exact fun a w v s hv h => hsteps a w v _ hv h

theorem serves_kill (id : ChannelId) (hr : pact.IsLive r) : Serves (kill id) r fun _ => r :=
  .of_behaves (behaves_kill (Steady.allowsCalm id)) hr

theorem serves_dropReader (hr : r = .starting none ∨ r = .stopping) :
    Serves dropReader r fun _ => r := by
  intro me w s Q hme hs hsteps hQ
  have hend {u : World Tale Duty} (hu : u.role me = r) (hs : Sound u s.client) :
      Q () u { s with client := { s.client with reader := none } } := by
    have hstep := hs.unread hu hr
    refine hsteps _ _ _ _ (steps_turned (by rw [hu])) (hQ _ _ _ ?_ hstep)
    exact World.role_cast_self _ _ _
  unfold dropReader
  rw [Task.honors_then]
  refine Task.honors_update ?_
  dsimp only
  cases hreader : s.client.reader with
  | none => exact hend hme hs
  | some i =>
    have hholder : (w.role me).isHolder = true := by
      rw [hme]
      obtain rfl | rfl := hr <;> rfl
    obtain ⟨hne, hrole⟩ := hs.ne_of_reader hholder hreader
    have hdropped : Sound (w.cast i .gone) s.client := by
      refine hs.cast ?_ rfl fun _ => .inr rfl
      obtain h | h := hrole <;> rw [h] <;> rfl
    refine ⟨hne, ?_, hend ((w.role_cast_of_ne _ hne.symm).trans hme) hdropped⟩
    exact hrole.symm.imp_right fun h => by rw [h]; rfl

/-- A reader keeps to the pact until its process is gone. -/
theorem listen_ready (hme : w.role me = .reader) : pact.Ready me w (listen id) := by
  intro v s hv hs
  have hme : v.role me = .reader := hv.2.trans hme
  have hhearing := behaves_hearing (Steady.allows id)
  refine (Task.honorsFrom_bind _ _ _ (.inl rfl)).mpr ?_
  refine hhearing.keeps.honors pact_hosts hhearing.dropsNone hs (hme ▸ isLive_reader) ?_
  intro _ u s hu hs
  have hme : u.role me = .reader := hu.2.trans hme
  rw [Task.honors_then]
  refine Task.honors_read ?_
  cases hclosing : (s.client.channel id).isClosing with
  | true =>
    have hactive : s.client.active ≠ some id := by
      intro hid
      cases hclosing.symm.trans (hs.active id hid).2.1
    exact Task.honors_modify ⟨u.told.turned, rfl, hs.fail hme hactive .terminated⟩
  | false =>
    have hreap := behaves_reap (Steady.allowsCalm id)
    simp only [Bool.false_eq_true, if_false, Task.honors_then]
    refine hreap.keeps.honors pact_hosts hreap.dropsNone hs (hme ▸ isLive_reader) ?_
    intro code u s hu hs
    exact Task.honors_modify ⟨u.told.turned, rfl, hs.disconnect (hu.2.trans hme) code⟩

theorem serves_takeCurrent (hr : r = .starting none ∨ r = .stopping) :
    Serves takeCurrent r fun _ => r := by
  refine .update _ (fun _ => rfl) fun me w s hme hs => ?_
  have hfits := hs.fits me
  rw [hme] at hfits
  have hholder : (w.role me).isHolder = true := by
    rw [hme]
    obtain rfl | rfl := hr <;> rfl
  obtain rfl | rfl := hr
  · obtain ⟨hphase, hactive, -⟩ := hfits
    refine hs.step hholder ⟨hphase, hactive, fun id hid => by cases hid⟩ rfl rfl hactive fun hrunning => ?_
    cases hphase.symm.trans hrunning
  · exact hs.step hholder hfits rfl rfl hfits fun _ => rfl

/-- A step of the one who stops the process. -/
theorem serves_stopping (f : Client → Client) (hr : r.isHolder = true)
    (hf : ∀ c, (r.Fits c → (f c).active = none) ∧ (f c).isChanging = c.isChanging ∧
      (f c).reader = c.reader) : Serves (onClient f) r fun _ => .stopping := by
  refine .onClient f .stopping ?_ fun me w c hme hs => ?_
  · cases r <;> first | rfl | cases hr
  · have hfits := hs.fits me
    rw [hme] at hfits
    obtain ⟨hactive, hlock, hreader⟩ := hf c
    exact hs.step (hme ▸ hr) (hactive hfits) hlock hreader (hactive hfits) fun _ => rfl

theorem honors_stop {waited : Bool} (hs : Sound w s.client) (hme : w.role me = .guest)
    {Q : Unit → World Tale Duty → Server → Prop}
    (hsteps : ∀ a w v s, pact.Steps me w v → Q a v s → Q a w s)
    (hQ : ∀ a v s, v.role me = .guest → Sound v s.client → Q a v s) :
    stop.Honors pact me waited Q w s := by
  refine honors_changing ?_ hs hme hsteps hQ
  have hlive : pact.IsLive .stopping := isLive_of_isHolder rfl
  refine .bind (serves_stopping _ rfl fun c => ⟨fun _ => rfl, rfl, rfl⟩) fun _ => ?_
  refine .bind (serves_takeCurrent (.inr rfl)) fun current => ?_
  extract_lets rest
  have hrest (x : Unit) : Serves (rest x) .stopping fun _ => .holding := by
    refine .bind (serves_dropReader (.inr rfl)) fun _ => ?_
    refine .onClient _ .holding rfl fun me w c hme hs => ?_
    have hactive : c.active = none := by
      have hfits := hs.fits me
      rw [hme] at hfits
      exact hfits
    refine hs.step (hme ▸ rfl) trivial ?_ ?_ ?_ fun hrunning => ?_
    · dsimp only
      split <;> rfl
    · dsimp only
      split <;> rfl
    · dsimp only
      split <;> exact hactive
    · dsimp only at hrunning
      split at hrunning <;> cases hrunning
  cases current with
  | some id =>
    refine .bind (serves_stopping _ rfl fun c => ⟨fun h => h, rfl, rfl⟩) fun _ => ?_
    exact .bind (serves_kill id hlive) hrest
  | none => exact hrest ()

theorem serves_launch : Serves launch (.starting none) fun
    | .error _ => .starting none
    | .ok id => .starting (some id) := by
  refine .update _ (fun launched => by cases launched <;> rfl) fun me w s hme hs => ?_
  have hfits := hs.fits me
  rw [hme] at hfits
  obtain ⟨hphase, hactive, -⟩ := hfits
  have hidle : s.client.phase ≠ .running := by
    intro hrunning
    cases hphase.symm.trans hrunning
  cases hlaunched : s.around.launcher.launch s.around.files s.around.environment with
  | error f =>
    dsimp only
    refine hs.step (hme ▸ rfl) ⟨hphase, hactive, fun id hid => by cases hid⟩ rfl rfl hactive ?_
    exact fun hrunning => absurd hrunning hidle
  | ok l =>
    dsimp only
    refine hs.step (hme ▸ rfl) ⟨hphase, hactive, fun id hid => ?_⟩ rfl rfl hactive
      fun hrunning => absurd hrunning hidle
    cases hid
    refine ⟨rfl, ?_⟩
    have hnew := s.client.channel_insert s.client.freshId s.client.freshId
      (.connect .fresh (some (40000 + (s.around.launches + 1)).toUInt32) !l.runtime.isNone)
    rw [beq_self_eq_true, if_pos rfl] at hnew
    exact (congrArg Channel.isClosing hnew).trans rfl

/-- A reader is sent to the channel that is probed. -/
theorem serves_recruit {rest : Job α} {r' : α → Duty}
    (hrest : Serves rest (.starting (some id)) r') :
    Serves (do
      let reader ← Task.fork (listen id)
      onClient fun c => { c with reader := some reader }
      rest) (.starting (some id)) r' := by
  intro me w s Q hme hs hsteps hQ i hi hunborn
  have hunborn : w.role i = .unborn := hunborn
  have hnoreader : s.client.reader ≠ some i := by
    intro hreader
    obtain h | h := hs.reader i hreader <;> cases hunborn.symm.trans h
  have hforked : Sound (w.cast i .reader) s.client :=
    hs.cast (hunborn ▸ rfl) rfl fun hreader => absurd hreader hnoreader
  have hrole : (w.cast i .reader).role i = .reader := World.role_cast_self _ _ _
  have hme : (w.cast i .reader).role me = .starting (some id) := (w.role_cast_of_ne _ hi.symm).trans hme
  have hfits := hforked.fits me
  rw [hme] at hfits
  obtain ⟨hphase, hactive, hprobed⟩ := hfits
  have hsent : Sound (((w.cast i .reader).tell w.told.turned).cast me (.starting (some id)))
      { s.client with reader := some i } := by
    refine .hold (fun j => hforked.alone (hme ▸ rfl)) ⟨hphase, hactive, hprobed⟩
      (fun _ => hforked.locked me (hme ▸ rfl)) (fun j hj => ?_) (fun hrunning => ?_) fun j hj => ?_
    · cases hactive.symm.trans hj
    · cases hphase.symm.trans hrunning
    · cases hj
      exact ⟨hi, .inl hrole⟩
  refine ⟨w.told, .reader, rfl, isLive_reader, listen_ready hrole, ?_⟩
  refine (Task.honors_then (onClient _) (fun _ => rest) Q).mpr ?_
  refine Task.honors_modify (Task.Honors.of_step pact_isFair
    (hrest me _ _ Q (World.role_cast_self _ _ _) hsent hsteps hQ) (steps_turned ?_) hsteps)
  exact (congrArg Duty.isReader hme).symm

/-- The first answer of a process comes after a wait. -/
theorem honors_probe {op : Operation} {params : Json} {limit : Duration} (hs : Sound w s.client)
    (hme : w.role me = .starting (some id))
    {Q : Except Failure Json → World Tale Duty → Server → Prop}
    (herror : ∀ f v s, v.role me = .starting (some id) → Sound v s.client → Q (.error f) v s)
    (hok : ∀ j v s, v.role me = .starting (some id) → Sound v s.client → v.told.hasTurned = false →
      Q (.ok j) v s) : (send id op params limit).Honors pact me false Q w s := by
  unfold send
  rw [Task.honors_then]
  refine Task.honors_update ?_
  have hposted : Sound w (s.client.post id op params).2 := hs.same (s.client.sameStanding_post id op params)
  rcases hpost : s.client.post id op params with ⟨posted, client⟩
  have hlift : clientLens.lift (fun c => c.post id op params) s = (posted, { s with client }) := by
    simp [clientLens, Lens.lift, hpost]
  rw [hlift]
  rw [hpost] at hposted
  cases posted with
  | error f => exact herror f w _ hme hposted
  | ok n =>
    rw [Task.honors_then]
    refine Task.honors_awaitFor fun start _ => ?_
    refine ⟨w.told, w.role me, rfl, hme ▸ isLive_of_isHolder rfl, rfl, ?_, ?_⟩
    · rw [World.tell_told, World.cast_role]
      exact hposted
    intro v s hv hs
    simp only [World.tell_told, World.cast_role] at hv
    have hme : v.role me = .starting (some id) := hv.2.trans hme
    refine ⟨fun now _ _ _ => ?_, fun o s' ho => ?_⟩
    · rw [Task.honors_then]
      refine Task.honors_modify (herror _ v _ hme (hs.same ?_))
      exact Client.sameStanding_insert rfl rfl
    · obtain ⟨⟨o', client⟩, hclient, heq⟩ := Option.map_eq_some_iff.mp ho
      cases heq
      have hs := hs.same (Client.sameStanding_fromChannel (fun _ _ _ => Channel.flags_collect) hclient)
      cases o with
      | error f => exact herror f v _ hme hs
      | ok j => exact hok j v _ hme hs hv.1.2

/-- A step of the one who starts the process. -/
theorem serves_starting {probed : Option ChannelId} (f : Client → Client)
    (hf : ∀ c, (f c).phase = c.phase ∧ (f c).active = c.active ∧ (f c).isChanging = c.isChanging ∧
      (f c).reader = c.reader) :
    Serves (onClient f) (.starting probed) fun _ => .starting none := by
  refine .onClient f (.starting none) rfl fun me w c hme hs => ?_
  have hfits := hs.fits me
  rw [hme] at hfits
  obtain ⟨hphase, hactive, hlock, hreader⟩ := hf c
  have hstarting : (f c).phase = .starting := hphase.trans hfits.1
  have hnone : (f c).active = none := hactive.trans hfits.2.1
  refine hs.step (hme ▸ rfl) ⟨hstarting, hnone, fun id hid => by cases hid⟩ hlock hreader hnone ?_
  intro hrunning
  cases hstarting.symm.trans hrunning

/-- A start that comes to nothing. -/
theorem serves_giveUp (f : Client → Client)
    (hf : ∀ c, (f c).phase = .notStarted ∧ (f c).active = c.active ∧ (f c).isChanging = c.isChanging ∧
      (f c).reader = c.reader) : Serves (onClient f) (.starting none) fun _ => .holding := by
  refine .onClient f .holding rfl fun me w c hme hs => ?_
  have hfits := hs.fits me
  rw [hme] at hfits
  obtain ⟨hphase, hactive, hlock, hreader⟩ := hf c
  refine hs.step (hme ▸ rfl) trivial hlock hreader (hactive.trans hfits.2.1) ?_
  intro hrunning
  cases hphase.symm.trans hrunning

theorem serves_probe {limit : Duration} : Serves (do
    match ← send id .health (.object []) limit with
    | .ok _ =>
      onClient fun c =>
        ({ c with active := some id, phase := .running } : Client).emit (.started (c.channel id).pid)
      return .ok ()
    | .error f =>
      onClient fun c => (c.abandon id).updateChannel id (·.failAll .terminated)
      kill id
      dropReader
      onClient fun c => { c with current := none, phase := .notStarted }
      return .error (.unavailable ("no health response: " ++ f.message)) :
    Job (Except Failure Unit)) (.starting (some id)) fun _ => .holding := by
  intro me w s Q hme hs hsteps hQ
  rw [Task.honors_then]
  refine honors_probe hs hme (fun f v s hme hs => ?_) fun j v s hme hs hturned => ?_
  · have hgiveUp : Serves (do
        onClient fun c => (c.abandon id).updateChannel id (·.failAll .terminated)
        kill id
        dropReader
        onClient fun c => { c with current := none, phase := .notStarted }
        return .error (.unavailable ("no health response: " ++ f.message)) :
        Job (Except Failure Unit)) (.starting (some id)) fun _ => .holding := by
      refine .bind (serves_starting _ fun c => ⟨rfl, rfl, rfl, rfl⟩) fun _ => ?_
      refine .bind (serves_kill id (isLive_of_isHolder rfl)) fun _ => ?_
      refine .bind (serves_dropReader (.inl rfl)) fun _ => ?_
      exact .bind (serves_giveUp _ fun c => ⟨rfl, rfl, rfl, rfl⟩) fun _ => .done _
    exact hgiveUp me v s Q hme hs hsteps hQ
  · have hactivated := hs.activate hme hturned
    rw [Task.honors_then]
    refine Task.honors_modify (hsteps _ _ _ _ (steps_turned (by rw [hme]; rfl)) (hQ _ _ _ ?_ hactivated))
    exact World.role_cast_self _ _ _

theorem honors_start {waited : Bool} (hs : Sound w s.client) (hme : w.role me = .guest)
    {Q : Except Failure Unit → World Tale Duty → Server → Prop}
    (hsteps : ∀ a w v s, pact.Steps me w v → Q a v s → Q a w s)
    (hQ : ∀ a v s, v.role me = .guest → Sound v s.client → Q a v s) :
    start.Honors pact me waited Q w s := by
  refine honors_changing ?_ hs hme hsteps hQ
  have hread : Serves (Task.read fun s : Server => decide (s.client.phase = .running)) .holding
      fun isUp => if isUp = true then .holding else .readying := by
    refine .read _ (fun isUp => ?_) fun me w s hme hs => hs.consider hme ?_
    · cases isUp <;> rfl
    · by_cases hphase : s.client.phase = .running
      · simp [hphase, Duty.Fits]
      · simp [hphase, Duty.Fits]
  refine .bind hread fun isUp => ?_
  cases isUp with
  | true => exact .done _
  | false =>
    have hphase : Serves (onClient fun c => { c with phase := .starting }) .readying
        fun _ => .starting none := by
      refine .onClient _ (.starting none) rfl fun me w c hme hs => ?_
      have hdown : c.phase ≠ .running := by
        have hfits := hs.fits me
        rw [hme] at hfits
        exact hfits
      -- a channel takes requests only while the process runs
      have hnone : c.active = none := by
        cases hactive : c.active with
        | none => rfl
        | some id => exact absurd (hs.active id hactive).1 hdown
      exact hs.step (hme ▸ rfl) ⟨rfl, hnone, fun id hid => by cases hid⟩ rfl rfl hnone
        fun hrunning => by cases hrunning
    refine .bind hphase fun _ => .bind (serves_dropReader (.inl rfl)) fun _ => ?_
    refine .bind (serves_takeCurrent (.inl rfl)) fun old => ?_
    extract_lets launched
    have hlaunched (x : Unit) : Serves (launched x) (.starting none) fun _ => .holding := by
      refine .bind serves_launch fun outcome => ?_
      cases outcome with
      | error f => exact .bind (serves_giveUp _ fun c => ⟨rfl, rfl, rfl, rfl⟩) fun _ => .done _
      | ok id =>
        refine serves_recruit ?_
        have hlimit : Serves (Task.read fun s : Server => s.configuration.startupLimit)
            (.starting (some id)) fun _ => .starting (some id) :=
          .of_behaves (.read Steady.refl _) (isLive_of_isHolder rfl)
        exact .bind hlimit fun limit => serves_probe
    cases old with
    | some id =>
      refine .bind (serves_starting _ fun c => ⟨rfl, rfl, rfl, rfl⟩) fun _ => ?_
      exact .bind (serves_kill id (isLive_of_isHolder rfl)) hlaunched
    | none => exact hlaunched ()

end LanguageServer.Server.Uptime
