import LanguageServer.Proofs.Server.Turns
import LanguageServer.Proofs.Task.Guests

/-! Starting and stopping the analysis process step by step, each step as its caller has come to it. -/
namespace LanguageServer.Server.Journal

open Analyzer

variable {α β : Type} {isOpen : Bool} {w v : Ranks} {x y : Watched} {s' : Server} {i me : TaskId} {h : Helm}
  {l l' : Life} {id : ChannelId}

/-- A step that has nothing to do with starts and stops. -/
def Aside (x y : Watched) : Prop := ∃ s, Undriven x.server s ∧ y = watcher.set s x

theorem pact_hosts : (pact isOpen).Hosts (.caller .away .out) Aside where
  fair := pact_isFair isOpen
  live := isLive_caller
  keeps w x y haside hs := by
    obtain ⟨s, hundriven, rfl⟩ := haside
    exact Sound.undriven hs hundriven
  arrives w x i hi hs := by
    refine Sound.cast hs trivial nofun (fun hne => absurd rfl hne) nofun fun hreader => ?_
    obtain hrole | hrole := hs.reader i hreader <;> cases hi.symm.trans hrole
  leaves w x i _ hs := Sound.cast hs trivial nofun (fun hne => absurd rfl hne) nofun fun _ => .inr rfl

/-- A task that has nothing to do with starts and stops leaves how far its caller has come. -/
theorem honors_aside {t : Job α} (ht : t.Behaves Undriven) {waited : Bool} (hs : Sound isOpen w x)
    (hme : (pact isOpen).IsLive (w.role me)) {Q : α → Ranks → Watched → Prop}
    (hQ : ∀ a v y, v.role me = w.role me → Sound isOpen v y → w.told <:+ v.told → Q a v y) :
    (t.zoom watcher).Honors (pact isOpen) me waited Q w x := by
  have hkeeps : (t.zoom watcher).Keeps Aside := ht.keeps.zoom fun _ s hs => ⟨s, hs, rfl⟩
  refine hkeeps.honors pact_hosts ht.dropsNone.zoom hs hme fun a v y hv hs => hQ a v y hv.2 hs ?_
  obtain hsame | hlater := hv.1
  · exact hsame ▸ List.suffix_rfl
  · exact hlater

/-- What is true when a task ends is true already before the last step that it takes by itself. -/
def Closed (isOpen : Bool) (me : TaskId) (Q : α → Ranks → Watched → Prop) : Prop :=
  ∀ a w v x, (pact isOpen).Steps me w v → Q a v x → Q a w x

theorem Closed.honors {Q : β → Ranks → Watched → Prop} (hQ : Closed isOpen me Q) (g : α → Task Watched β) :
    Closed isOpen me fun a v x => (g a).Honors (pact isOpen) me false Q v x :=
  fun _ _ _ _ hv hrest => hrest.of_step (pact_isFair isOpen) hv hQ

theorem steps_cast (hme : w.role me = .caller h l) (l' : Life) : (pact isOpen).Steps me w (w.cast me (.caller h l')) :=
  ⟨w.told, .caller h l', List.suffix_rfl, by rw [hme]; rfl, rfl⟩

/-- A caller that has come so far keeps to the pact, and how far it has come then is told by the outcome. -/
def Serves (isOpen : Bool) (h : Helm) (l : Life) (t : Task Watched α) (l' : α → Life) : Prop :=
  ∀ (me : TaskId) (w : Ranks) (x : Watched) (Q : α → Ranks → Watched → Prop),
    w.role me = .caller h l → Sound isOpen w x → Closed isOpen me Q →
    (∀ a v y, v.role me = .caller h (l' a) → Sound isOpen v y → w.told <:+ v.told → Q a v y) →
    t.Honors (pact isOpen) me false Q w x

namespace Serves

theorem done {l' : α → Life} (a : α) (hl : l' a = l) : Serves isOpen h l (.done a) l' :=
  fun _ _ _ _ hme hs _ hQ => hQ a _ _ (hl ▸ hme) hs List.suffix_rfl

theorem bind {t : Job α} {g : α → Job β} {l₁ : α → Life} {l₂ : β → Life}
    (ht : Serves isOpen h l (t.zoom watcher) l₁) (hg : ∀ a, Serves isOpen h (l₁ a) ((g a).zoom watcher) l₂) :
    Serves isOpen h l ((t >>= g).zoom watcher) l₂ := by
  intro me w x Q hme hs hclosed hQ
  rw [Task.zoom_then]
  refine (Task.honors_then _ _ _).mpr (ht me w x _ hme hs (hclosed.honors _) fun a v y hme hs hv => ?_)
  exact hg a me v y Q hme hs hclosed fun b u z hme hs hu => hQ b u z hme hs (hv.trans hu)

theorem of_behaves {t : Job α} (ht : t.Behaves Undriven) : Serves isOpen h l (t.zoom watcher) fun _ => l :=
  fun _ _ _ _ hme hs _ hQ =>
    honors_aside ht hs (hme ▸ isLive_caller) fun a v y hv hs => hQ a v y (hv.trans hme) hs

theorem update {f : Server → α × Server} {l' : α → Life}
    (hf : ∀ me w x, w.role me = .caller h l → Sound isOpen w x →
      Sound isOpen (w.cast me (.caller h (l' (f x.server).1))) (watcher.set (f x.server).2 x)) :
    Serves isOpen h l ((Task.update f).zoom watcher) l' := by
  intro me w x Q hme hs hclosed hQ
  have hdone := hQ _ _ _ (World.role_cast_self _ _ _) (hf me w x hme hs) List.suffix_rfl
  exact Task.honors_zoom_update (hclosed _ _ _ _ (steps_cast hme _) hdone)

theorem onClient {f : Client → Client}
    (hf : ∀ me w x, w.role me = .caller h l → Sound isOpen w x →
      Sound isOpen (w.cast me (.caller h l')) (watcher.set (clientLens.modify f x.server) x)) :
    Serves isOpen h l ((Server.onClient f).zoom watcher) fun _ => l' :=
  .update (f := fun s => ((), clientLens.modify f s)) hf

theorem read {f : Server → α} {l' : α → Life} (hl : ∀ x, l.Fits x → (l' (f x.server)).Fits x)
    (hin : ∀ a, (l' a).isIn = true → l.isIn = true) : Serves isOpen h l ((Task.read f).zoom watcher) l' := by
  refine .update (f := fun s => (f s, s)) fun me w x hme hs => ?_
  have hcast : Sound isOpen (w.cast me (.caller h (l' (f x.server)))) x := by
    refine hs.cast (hl x ?_) (fun h => ?_) (fun hh => ?_) (fun hh => ?_) fun hi => ?_
    · have hfits := hs.fits me
      rwa [hme] at hfits
    · rw [hme]
      exact hin _ h
    · rwa [hme]
    · exact hs.decided me (by rw [hme]; exact hh)
    · exact absurd rfl (ne_of_reads hme (hs.reader me hi))
  exact hcast.undriven (.refl _)

end Serves

theorem past_modify {f : Client → Client} {s : Server} (hfresh : s.client.freshId ≤ (f s.client).freshId)
    (hcurrent : ∀ id, (f s.client).current = some id → s.client.current = some id) :
    Past s (clientLens.modify f s) where
  fresh := hfresh
  gone id _ hnot hnow := hnot (hcurrent id hnow)
  shut hshut := hshut

/-- A step without an event while the process is being started. -/
theorem Tied.amid (ht : Tied isOpen x) (hphase : x.server.client.phase = .starting)
    (hevents : s'.client.events = x.server.client.events) (hpast : Past x.server s')
    (hactive : s'.client.active = x.server.client.active) (hlocked : s'.client.isChanging = true)
    (hcurrent : ∀ id, s'.client.current = some id → s'.client.phase = .starting) :
    Tied isOpen (watcher.set s' x) := by
  have hdown := ht.down (by rw [hphase]; exact nofun)
  refine ht.silent hevents hpast (fun id hid => ?_) (fun id hid hnot => ?_) (fun hfree => ?_)
    (fun hstopped _ _ => ?_) fun hbegins => ?_
  · cases (hactive.trans hdown).symm.trans hid
  · exact absurd (hcurrent id hid) hnot
  · cases hfree.symm.trans hlocked
  · cases hphase.symm.trans hstopped
  · exact absurd hphase hbegins.1

/-- Someone begins to start or stop the process, or lets others do so. -/
theorem Tied.toggle (ht : Tied isOpen x) (hphase : x.server.client.phase ≠ .starting) (b : Bool) :
    Tied isOpen (watcher.set (clientLens.modify (fun c => { c with isChanging := b }) x.server) x) := by
  refine ht.silent rfl (past_modify (Nat.le_refl _) fun _ h => h) (fun id hid => ?_)
    (fun id hid _ => ⟨hid, hphase⟩) (fun _ => hphase) (fun hstopped hdown _ => ⟨hstopped, hdown, rfl⟩)
    fun hbegins => absurd hbegins.2 hphase
  obtain ⟨hrunning, hcurrent, -⟩ := ht.active id hid
  exact ⟨hid, hrunning, hcurrent⟩

section Steps

variable (hs : Sound isOpen w x)
include hs

theorem Sound.fits_self (hme : w.role me = .caller h l) : l.Fits x := by
  have hfits := hs.fits me
  rwa [hme] at hfits

/-- A step of someone who starts or stops the process. -/
theorem Sound.act (hme : w.role me = .caller h l) (hin : l.isIn = true)
    (hchanging : s'.client.isChanging = x.server.client.isChanging)
    (hreader : s'.client.reader = x.server.client.reader)
    (hheld : s'.starts.isHeld = x.server.starts.isHeld)
    (htied : s'.client.isChanging = true → Tied isOpen (watcher.set s' x)) (hl : l'.Fits (watcher.set s' x)) :
    Sound isOpen (w.cast me (.caller h l')) (watcher.set s' x) := by
  have hin : (w.role me).life.isIn = true := hme ▸ hin
  have hlocked := hchanging.trans (hs.locked me hin)
  exact hs.drive hme (fun i hi => hs.alone hin hi) (htied hlocked) hl (fun _ => hlocked) hheld hreader

theorem Sound.begin (hme : w.role me = .caller h .readying) (hh : h = .tried ∨ isOpen = true) :
    Sound isOpen (w.cast me (.caller h .clearing))
      (watcher.set (clientLens.modify (fun c => { c with phase := .starting }) x.server) x) := by
  obtain ⟨hup, hnot⟩ := hs.fits_self hme
  refine hs.act hme rfl rfl rfl rfl (fun hlocked => hs.toTied.silent rfl ?_ (fun id hid => ?_)
    (fun _ _ hphase => ?_) (fun hfree => ?_) (fun _ _ hbegins => ?_) fun _ hopen => ?_) rfl
  · exact past_modify (Nat.le_refl _) fun _ h => h
  · obtain ⟨hphase, -⟩ := hs.active id hid
    exact absurd hphase hup
  · exact absurd rfl hphase
  · cases hfree.symm.trans hlocked
  · exact absurd ⟨hnot, rfl⟩ hbegins
  · obtain rfl | hisOpen := hh
    · exact hs.decided me (hme ▸ rfl)
    · cases hopen.symm.trans hisOpen

/-- Whoever starts the process takes the channel of the one before away. -/
theorem Sound.clear (hme : w.role me = .caller h .clearing) :
    Sound isOpen (w.cast me (.caller h .opening))
      (watcher.set (clientLens.modify (fun c => { c with current := none }) x.server) x) := by
  have hphase : x.server.client.phase = .starting := hs.fits_self hme
  exact hs.act hme rfl rfl rfl rfl (fun hlocked => hs.toTied.amid hphase rfl
    (past_modify (Nat.le_refl _) nofun) rfl hlocked nofun) ⟨hphase, rfl⟩

theorem Sound.connect (hme : w.role me = .caller h .opening) {ch : Channel} (a : Surroundings) :
    Sound isOpen (w.cast me (.caller h (.probing x.server.client.freshId)))
      (watcher.set { x.server with client := (x.server.client.connect ch).2, around := a } x) := by
  obtain ⟨hphase, hcleared⟩ := hs.fits_self hme
  have hfresh : x.server.client.freshId < (x.server.client.connect ch).2.freshId :=
    Client.lt_freshId (Table.mem_keys_insert.mpr (.inl rfl))
  have hnotices : notices (watcher.set { x.server with
      client := (x.server.client.connect ch).2, around := a } x).log = notices x.log := notices_silent rfl
  refine hs.act hme rfl rfl rfl rfl (fun hlocked => hs.toTied.amid hphase rfl ?_ rfl hlocked
    fun _ _ => hphase) ⟨hphase, rfl, hfresh, ?_⟩
  · refine ⟨Nat.le_of_lt hfresh, fun id hid _ hnow => ?_, fun h => h⟩
    cases hnow
    exact Nat.lt_irrefl _ hid
  · rw [hnotices]
    exact hs.bounded

theorem Sound.fail (hme : w.role me = .caller h .opening) :
    Sound isOpen (w.cast me (.caller h .failed))
      (watcher.set (clientLens.modify (fun c => { c with phase := .notStarted }) x.server) x) := by
  obtain ⟨hphase, hcleared⟩ := hs.fits_self hme
  have hdown := hs.down (by rw [hphase]; exact nofun)
  refine hs.act hme rfl rfl rfl rfl (fun hlocked => hs.toTied.amid hphase rfl
    (past_modify (Nat.le_refl _) fun _ h => h) rfl hlocked fun id hid => ?_) ⟨rfl, hdown, hcleared⟩
  cases hcleared.symm.trans hid

theorem Sound.giveUp (hme : w.role me = .caller h (.probing id)) :
    Sound isOpen (w.cast me (.caller h .failed)) (watcher.set
      (clientLens.modify (fun c => { c with current := none, phase := .notStarted }) x.server) x) := by
  obtain ⟨hphase, -⟩ := hs.fits_self hme
  have hdown := hs.down (by rw [hphase]; exact nofun)
  exact hs.act hme rfl rfl rfl rfl (fun hlocked => hs.toTied.amid hphase rfl
    (past_modify (Nat.le_refl _) nofun) rfl hlocked nofun) ⟨rfl, hdown, rfl⟩

theorem Sound.activate (hme : w.role me = .caller h (.probing id)) :
    Sound isOpen (w.cast me (.caller h .holding)) (watcher.set (clientLens.modify (fun c =>
      ({ c with active := some id, phase := .running } : Client).emit (.started (c.channel id).pid))
        x.server) x) := by
  obtain ⟨hphase, hcurrent, hfresh, hnew⟩ := hs.fits_self hme
  -- all that has been told is about earlier channels, so that another round begins
  refine hs.act hme rfl rfl rfl rfl (fun hlocked => hs.toTied.emits rfl rfl (.started _ hs.orderly hnew) hfresh
    (past_modify (Nat.le_refl _) fun _ h => h) (fun j hj => ?_) (fun j hj => ?_) nofun fun hstopped _ => ?_) nofun
  · cases hj
    exact ⟨rfl, hcurrent, rfl, _, rfl⟩
  · exact ⟨Option.some.inj (hj.symm.trans hcurrent), nofun⟩
  · cases hphase.symm.trans hstopped

/-- Whoever stops the process lets no more requests through. -/
theorem Sound.close (hme : w.role me = .caller h .holding) :
    Sound isOpen (w.cast me (.caller h .stopping))
      (watcher.set (clientLens.modify (fun c => { c with active := none }) x.server) x) := by
  have hphase : x.server.client.phase ≠ .starting := hs.fits_self hme
  refine hs.act hme rfl rfl rfl rfl (fun hlocked => hs.toTied.silent rfl
    (past_modify (Nat.le_refl _) fun _ h => h) nofun (fun id hid _ => ⟨hid, hphase⟩) (fun _ => hphase)
    (fun hstopped _ _ => ⟨hstopped, rfl, rfl⟩) fun hbegins => ?_) ⟨hphase, rfl⟩
  exact absurd hbegins.2 hphase

theorem Sound.take (hme : w.role me = .caller h .stopping) :
    Sound isOpen (w.cast me (.caller h (.ending x.server.client.current)))
      (watcher.set (clientLens.modify (fun c => { c with current := none }) x.server) x) := by
  obtain ⟨hphase, hdown⟩ := hs.fits_self hme
  refine hs.act hme rfl rfl rfl rfl (fun hlocked => hs.toTied.silent rfl (past_modify (Nat.le_refl _) nofun)
    (fun id hid => ?_) nofun (fun _ => hphase) (fun hstopped _ _ => ⟨hstopped, hdown, rfl⟩) fun hbegins => ?_)
    ⟨hphase, hdown, rfl, fun id hid => ⟨?_, ?_⟩⟩
  · cases hdown.symm.trans hid
  · exact absurd hbegins.2 hphase
  -- from now on it is the journal that knows which channel was current
  · show (Moment.step _ _ :: x.log).findSome? Moment.current? = some id
    rw [List.findSome?_cons, Moment.current?, hid]
  · have hnotices : notices (watcher.set (clientLens.modify (fun c => { c with current := none })
        x.server) x).log = notices x.log := notices_silent rfl
    rw [hnotices]
    exact hs.current id hid hphase

theorem Sound.announce (hme : w.role me = .caller h (.ending (some id)))
    (hnot : x.server.client.phase ≠ .stopped) :
    Sound isOpen (w.cast me (.caller h .stopped)) (watcher.set
      (clientLens.modify (fun c => ({ c with phase := .stopped } : Client).emit .stopped) x.server) x) := by
  obtain ⟨-, hdown, hcleared, htaken⟩ := hs.fits_self hme
  obtain ⟨hlast, e, hlatest, he⟩ := htaken id rfl
  obtain ⟨ns, hns⟩ := List.head?_eq_some_iff.mp hlatest
  refine hs.act hme rfl rfl rfl rfl (fun _ => hs.toTied.emits rfl hlast ?_ ?_
    (past_modify (Nat.le_refl _) fun _ h => h) (fun j hj => ?_) (fun j hj => ?_) nofun fun hstopped _ => ?_)
    ⟨rfl, hdown⟩
  · rw [hns]
    exact .stopped (hns ▸ hs.orderly) he
  · exact hs.bounded id e (hns ▸ List.mem_cons_self)
  · cases hdown.symm.trans hj
  · cases hcleared.symm.trans hj
  · exact hnot hstopped

/-- There was no process to stop, or it was stopped already. -/
theorem Sound.leaveOff {taken : Option ChannelId} (hme : w.role me = .caller h (.ending taken)) :
    Sound isOpen (w.cast me (.caller h .stopped))
      (watcher.set (clientLens.modify (fun c => { c with phase := .stopped }) x.server) x) := by
  obtain ⟨-, hdown, hcleared, -⟩ := hs.fits_self hme
  refine hs.act hme rfl rfl rfl rfl (fun _ => hs.toTied.silent rfl
    (past_modify (Nat.le_refl _) fun _ h => h) (fun id hid => ?_) (fun id hid => ?_) nofun
    (fun _ _ _ => ⟨rfl, hdown, rfl⟩) fun hbegins => ?_) ⟨rfl, hdown⟩
  · cases hdown.symm.trans hid
  · cases hcleared.symm.trans hid
  · cases hbegins.2

theorem Sound.lock (hme : w.role me = .caller h .out) (hfree : x.server.client.isChanging = false) :
    Sound isOpen (w.cast me (.caller h .holding))
      (watcher.set (clientLens.modify (fun c => { c with isChanging := true }) x.server) x) := by
  have hphase := hs.free hfree
  refine hs.drive hme (fun i _ => ?_) (hs.toTied.toggle hphase true) hphase (fun _ => rfl) rfl rfl
  exact Bool.eq_false_iff.mpr fun hin => by cases hfree.symm.trans (hs.locked i hin)

theorem Sound.unlock (hme : w.role me = .caller h l) (hin : l.isIn = true)
    (hphase : x.server.client.phase ≠ .starting) :
    Sound isOpen (w.cast me (.caller h .out))
      (watcher.set (clientLens.modify (fun c => { c with isChanging := false }) x.server) x) := by
  have hin : (w.role me).life.isIn = true := hme ▸ hin
  exact hs.drive hme (fun i hi => hs.alone hin hi) (hs.toTied.toggle hphase false) trivial nofun rfl rfl

end Steps

section Tasks

theorem serves_dropReader : Serves isOpen h l (dropReader.zoom watcher) fun _ => l := by
  intro me w x Q hme hs hclosed hQ
  have halike (s : Server) : Alike s { s with client := { s.client with reader := none } } :=
    ⟨rfl, rfl, rfl, rfl, rfl, Nat.le_refl _, rfl, fun h => h⟩
  have hunread {u : Ranks} (hs : Sound isOpen u x) : Sound isOpen u
      (watcher.set { x.server with client := { x.server.client with reader := none } } x) :=
    hs.alike (halike _) rfl nofun
  have hget : watcher.get x = x.server := rfl
  intro t _
  dsimp only [Lens.lift]
  rw [hget]
  cases hreader : x.server.client.reader with
  | none => exact hQ _ w _ hme (hunread hs) List.suffix_rfl
  | some i =>
    have hrole := hs.reader i hreader
    have hne := ne_of_reads hme hrole
    have hdropped : Sound isOpen (w.cast i .gone) x :=
      hs.cast trivial nofun (fun hne => absurd rfl hne) nofun fun _ => .inr rfl
    refine ⟨hne, ?_, hQ _ _ _ ((w.role_cast_of_ne _ hne.symm).trans hme) (hunread hdropped) List.suffix_rfl⟩
    exact hrole.symm.imp_right fun h => by rw [h]; rfl

theorem undriven_disconnect {s : Server} (hid : s.client.active ≠ some id) (code : Option Int) :
    Undriven s (clientLens.modify (·.disconnect id code) s) := by
  have hclient : s.client.disconnect id code = s.client.updateChannel id (·.failAll (.crashed code)) := by
    simp [Client.disconnect, hid]
  show Undriven s { s with client := s.client.disconnect id code }
  rw [hclient]
  exact undriven_channels s id _ s.client.nextRequest

/-- Whoever reads from a process tells that it is gone, and does nothing else. -/
theorem listen_ready (hi : w.role i = .reader) : (pact isOpen).Ready i w ((listen id).zoom watcher) := by
  intro v x hv hs
  have hme := hv.2.trans hi
  have hrests {u : Ranks} {y : Watched} (hs : Sound isOpen u y) : (pact isOpen).Rests i u y :=
    ⟨u.told, List.suffix_rfl, hs.cast trivial nofun (fun hne => absurd rfl hne) nofun fun _ => .inr rfl⟩
  rw [listen_eq, Task.zoom_then]
  refine (Task.honorsFrom_bind _ _ _ (.inl rfl)).mpr ?_
  have hhearing := behaves_hearing (Undriven.allows id)
  refine honors_aside hhearing hs (hme ▸ isLive_reader) fun _ v x hv hs _ => ?_
  have hme := hv.trans hme
  have hread : Sound isOpen v (watcher.set x.server x) := hs.undriven (.refl _)
  rw [Task.zoom_then]
  refine (Task.honors_then _ _ _).mpr (Task.honors_zoom_read ?_)
  split
  · exact Task.honors_zoom_modify (hrests (hread.undriven (undriven_channels _ id _ _)))
  · rw [Task.zoom_then]
    refine (Task.honors_then _ _ _).mpr ?_
    have hreap := behaves_reap (Undriven.allows id)
    refine honors_aside hreap hread (hme ▸ isLive_reader) fun code v x _ hs _ => ?_
    refine Task.honors_zoom_modify (hrests ?_)
    -- the channel may have been closed or replaced while its process was waited for
    by_cases hid : x.server.client.active = some id
    · exact hs.crash hid code rfl
    · exact hs.undriven (undriven_disconnect hid code)

theorem serves_recruit {rest : Job α} {l' : α → Life} (hrest : Serves isOpen h l (rest.zoom watcher) l') :
    Serves isOpen h l (Task.zoom watcher do
      let reader ← Task.fork (listen id)
      onClient fun c => { c with reader := some reader }
      rest) l' := by
  intro me w x Q hme hs hclosed hQ i hi hunborn
  have hforked : Sound isOpen (w.cast i .reader) x :=
    hs.cast trivial nofun (fun hne => absurd rfl hne) nofun fun _ => .inl rfl
  have hrole : (w.cast i .reader).role i = .reader := World.role_cast_self _ _ _
  refine ⟨w.told, .reader, List.suffix_rfl, isLive_reader, listen_ready hrole, ?_⟩
  have halike (s : Server) : Alike s { s with client := { s.client with reader := some i } } :=
    ⟨rfl, rfl, rfl, rfl, rfl, Nat.le_refl _, rfl, fun h => h⟩
  have hsent : Sound isOpen (w.cast i .reader)
      (watcher.set { x.server with client := { x.server.client with reader := some i } } x) := by
    refine hforked.alike (halike _) rfl fun j hj => .inl ?_
    cases hj
    exact hrole
  refine (Task.honors_then (Task.zoom watcher (onClient fun c => { c with reader := some i }))
    (fun _ => rest.zoom watcher) Q).mpr (Task.honors_zoom_modify ?_)
  exact hrest me _ _ Q ((w.role_cast_of_ne _ hi.symm).trans hme) hsent hclosed hQ

/-- Whoever waits for a flag goes on when it is down, and takes it down again at its end. -/
theorem honors_exclusive {raised : Server → Bool} {set : Bool → Server → Server} {body : Job α} {waited : Bool}
    (hme : w.role me = .caller h l) (hs : Sound isOpen w x) {Q : α → Ranks → Watched → Prop}
    (hbody : ∀ v y, v.role me = .caller h l → Sound isOpen v y → w.told <:+ v.told → raised y.server = false →
      (body.zoom watcher).Honors (pact isOpen) me false
        (fun a u z => Q a u (watcher.set (set false z.server) z)) v (watcher.set (set true y.server) y)) :
    ((Task.exclusive raised set body).zoom watcher).Honors (pact isOpen) me waited Q w x := by
  unfold Task.exclusive
  rw [Task.zoom_then]
  refine (Task.honorsFrom_bind _ _ _ (.inl rfl)).mpr ?_
  -- whatever others have done before the flag is down, the caller is where it was and the pact has been kept
  refine Pact.Turns.of_since (pact_isFair isOpen) waited hs (hme ▸ isLive_caller) fun v y hv hs t _ y' _ hready => ?_
  obtain ⟨⟨_, s⟩, hfree, heq⟩ := Option.map_eq_some_iff.mp hready
  cases heq
  obtain ⟨hfree, heq⟩ := Option.ite_none_right_eq_some.mp hfree
  cases heq
  have hme := hv.2.trans hme
  have hread : Sound isOpen v (watcher.set y.server y) := hs.undriven (.refl _)
  have hdown : raised (watcher.get y) = false := by simpa using hfree
  refine fun _ _ => ⟨fun hloose => ?_, hbody v _ hme hread ?_ hdown⟩
  · rw [hme] at hloose
    cases hloose
  · obtain hsame | hlater := hv.1
    · exact hsame ▸ List.suffix_rfl
    · exact hlater

/-- Whoever starts or stops the process does so while nobody else does. -/
theorem honors_changing {body : Job α} {l' : α → Life} (hbody : Serves isOpen h .holding (body.zoom watcher) l')
    (hin : ∀ a, (l' a).isIn = true) (hphase : ∀ a y, (l' a).Fits y → y.server.client.phase ≠ .starting)
    {waited : Bool} (hme : w.role me = .caller h .out) (hs : Sound isOpen w x)
    {Q : α → Ranks → Watched → Prop} (hclosed : Closed isOpen me Q)
    (hQ : ∀ a v y, v.role me = .caller h .out → Sound isOpen v y → w.told <:+ v.told → (l' a).Fits y → Q a v y) :
    ((changing body).zoom watcher).Honors (pact isOpen) me waited Q w x := by
  refine honors_exclusive hme hs fun v y hme hs hv hfree => ?_
  -- the lock is taken and given back by steps that are the caller's own, besides those of the body
  refine Task.Honors.of_step (pact_isFair isOpen) ?_ (steps_cast hme .holding) fun a _ _ y hu h => hclosed a _ _ _ hu h
  refine hbody me _ _ _ (World.role_cast_self _ _ _) (hs.lock hme hfree) ?_ fun a u z hme hs hu => ?_
  · exact fun a _ _ y hu h => hclosed a _ _ _ hu h
  · have hfits := hs.fits_self hme
    have hdone := hQ a _ _ (World.role_cast_self _ _ _) (hs.unlock hme (hin a) (hphase a z hfits))
      (hv.trans hu) (hfits.same rfl rfl rfl rfl (Nat.le_refl _))
    exact hclosed a _ _ _ (steps_cast hme _) hdone

theorem serves_clear : Serves isOpen h .clearing (takeCurrent.zoom watcher) fun _ => .opening :=
  .update fun _ _ _ hme hs => hs.clear hme

theorem serves_take : Serves isOpen h .stopping (takeCurrent.zoom watcher) .ending :=
  .update fun _ _ _ hme hs => hs.take hme

/-- How far someone has come who has launched the process, or could not. -/
def Life.ofLaunch : Except Failure ChannelId → Life
  | .ok id => .probing id
  | .error _ => .opening

theorem serves_launch : Serves isOpen h .opening (launch.zoom watcher) Life.ofLaunch := by
  refine .update fun me w x hme hs => ?_
  cases hlaunch : x.server.around.launcher.launch x.server.around.files x.server.around.environment with
  | error f =>
    simp only [Life.ofLaunch]
    have hsame : w.cast me (.caller h .opening) = w := hme ▸ w.cast_role me
    exact hsame.symm ▸ hs.undriven (.refl _)
  | ok l =>
    exact hs.connect hme _

theorem serves_kill : Serves isOpen h l ((kill id).zoom watcher) fun _ => l :=
  .of_behaves (behaves_kill (Undriven.allows id))

theorem serves_abandon : Serves isOpen h l ((onClient (Client.abandon id)).zoom watcher) fun _ => l :=
  .of_behaves (.modify fun s => undriven_channels s id _ s.client.nextRequest)

theorem serves_close : Serves isOpen h l (Task.zoom watcher
    (onClient fun c => (c.abandon id).updateChannel id (·.failAll .terminated))) fun _ => l := by
  refine .of_behaves (.modify fun s => ?_)
  have habandoned := undriven_channels s id { s.client.channel id with isClosing := true } s.client.nextRequest
  exact habandoned.trans (undriven_channels _ id _ s.client.nextRequest)

/-- Whoever stops the process finds it stopped at its end. -/
theorem honors_stop {waited : Bool} (hme : w.role me = .caller h .out) (hs : Sound isOpen w x)
    {Q : Unit → Ranks → Watched → Prop} (hclosed : Closed isOpen me Q)
    (hQ : ∀ a v y, v.role me = .caller h .out → Sound isOpen v y → w.told <:+ v.told →
      Life.stopped.Fits y → Q a v y) : (stop.zoom watcher).Honors (pact isOpen) me waited Q w x := by
  refine honors_changing ?_ (fun _ => rfl) (fun _ y hfits => ?_) hme hs hclosed hQ
  · refine .bind (.onClient fun me w x hme hs => hs.close hme) fun _ => ?_
    refine .bind serves_take fun current => ?_
    extract_lets rest
    have hrest (a : Unit) : Serves isOpen h (.ending current) ((rest a).zoom watcher) fun _ => .stopped := by
      refine .bind serves_dropReader fun _ => .onClient fun me w x hme hs => ?_
      by_cases hnews : (current.isSome && x.server.client.phase ≠ .stopped) = true
      · obtain ⟨htaken, hphase⟩ := Bool.and_eq_true_iff.mp hnews
        obtain ⟨id, rfl⟩ := Option.isSome_iff_exists.mp htaken
        dsimp only [clientLens, Lens.modify]
        rw [if_pos hnews]
        exact hs.announce hme (of_decide_eq_true hphase)
      · dsimp only [clientLens, Lens.modify]
        rw [if_neg hnews]
        exact hs.leaveOff hme
    cases current with
    | some id => exact .bind serves_close fun _ => .bind serves_kill hrest
    | none => exact hrest ()
  · rw [hfits.1]
    exact nofun

/-- How far someone has come who has seen whether the process runs. -/
def Life.ofLook (isUp : Bool) : Life := bif isUp then .holding else .readying

theorem serves_look : Serves isOpen h .holding
    ((Task.read fun s => decide (s.client.phase = .running)).zoom watcher) Life.ofLook := by
  refine .read (fun x hfits => ?_) fun _ _ => rfl
  by_cases hup : x.server.client.phase = .running
  · rw [decide_eq_true hup]
    exact hfits
  · rw [decide_eq_false hup]
    exact ⟨hup, hfits⟩

theorem serves_send (id : ChannelId) (op : Operation) (params : Json) (limit : Duration) :
    Serves isOpen h l ((send id op params limit).zoom watcher) fun _ => l :=
  .of_behaves (behaves_send (Undriven.allows id) (undriven_post id op params) limit)

/-- How far someone has come who has started the process, or could not. -/
def Life.ofStart : Except Failure Unit → Life
  | .ok _ => .holding
  | .error _ => .failed

/-- Whoever starts the process either finds that it runs or leaves nothing behind. -/
theorem honors_start (hh : h = .tried ∨ isOpen = true) {waited : Bool} (hme : w.role me = .caller h .out)
    (hs : Sound isOpen w x) {Q : Except Failure Unit → Ranks → Watched → Prop} (hclosed : Closed isOpen me Q)
    (hQ : ∀ o v y, v.role me = .caller h .out → Sound isOpen v y → w.told <:+ v.told →
      (Life.ofStart o).Fits y → Q o v y) : (start.zoom watcher).Honors (pact isOpen) me waited Q w x := by
  refine honors_changing ?_ (fun o => ?_) (fun o y hfits => ?_) hme hs hclosed hQ
  · refine .bind serves_look fun isUp => ?_
    cases isUp with
    | true => exact .done _ rfl
    | false =>
      refine .bind (.onClient fun me w x hme hs => hs.begin hme hh) fun _ => .bind serves_dropReader fun _ => ?_
      refine .bind serves_clear fun old => ?_
      extract_lets launched
      have hlaunched (a : Unit) : Serves isOpen h .opening ((launched a).zoom watcher) Life.ofStart := by
        refine .bind serves_launch fun outcome => ?_
        cases outcome with
        | error f => exact .bind (.onClient fun me w x hme hs => hs.fail hme) fun _ => .done _ rfl
        | ok id =>
          refine serves_recruit (.bind (.of_behaves (.read Undriven.refl _)) fun limit => ?_)
          refine .bind (serves_send id _ _ limit) fun outcome => ?_
          cases outcome with
          | ok j => exact .bind (.onClient fun me w x hme hs => hs.activate hme) fun _ => .done _ rfl
          | error f =>
            refine .bind serves_close fun _ => .bind serves_kill fun _ => .bind serves_dropReader fun _ => ?_
            exact .bind (.onClient fun me w x hme hs => hs.giveUp hme) fun _ => .done _ rfl
      cases old with
      | some id => exact .bind serves_abandon fun _ => .bind serves_kill hlaunched
      | none => exact hlaunched ()
  · cases o <;> rfl
  · cases o with
    | ok => exact hfits
    | error f =>
      rw [hfits.phase]
      exact nofun

end Tasks

end LanguageServer.Server.Journal
