import LanguageServer.Proofs.Analyzer.Standing

/-! Whether the analysis process is up while tasks start it, stop it, read from it and ask it. One task
at a time starts or stops it, and the status says that it is up only while its channel is active. -/
namespace LanguageServer.Server.Uptime

open Analyzer

/-- The part that a task plays. Who has the lock may have found that the process is not up, may start
it, with the channel that is probed if there is one by now, or may stop it. -/
inductive Duty where
  | unborn
  | gone
  | guest
  | reader
  | holding
  | readying
  | starting (probed : Option ChannelId)
  | stopping

namespace Duty

def isReader : Duty → Bool
  | .reader => true
  | _ => false

def isHolder : Duty → Bool
  | .holding => true
  | .readying => true
  | .starting _ => true
  | .stopping => true
  | _ => false

/-- How the client is while the part is played. -/
def Fits (c : Client) : Duty → Prop
  | .readying => c.phase ≠ .running
  | .starting probed => c.phase = .starting ∧ c.active = none ∧
      ∀ id, probed = some id → c.current = some id ∧ (c.channel id).isClosing = false
  | .stopping => c.active = none
  | _ => True

end Duty

/-- The clients that there have been, and whether a task has moved since the latest of them. -/
structure Tale where
  clients : List Client
  hasTurned : Bool

def Tale.turned (t : Tale) : Tale := { t with hasTurned := true }

/-- The process of a channel was gone while the channel was still being probed. -/
def Overtaken (h : List Client) (id : ChannelId) : Prop :=
  ∃ c ∈ h, c.phase = .starting ∧ c.active = none ∧ c.current = some id ∧ (c.channel id).isDead = true

structure Sound (w : World Tale Duty) (c : Client) : Prop where
  told : w.told.hasTurned = false → ∃ d ∈ w.told.clients, d.SameStanding c
  fits : ∀ i, (w.role i).Fits c
  locked : ∀ i, (w.role i).isHolder = true → c.isChanging = true
  single : ∀ i j, (w.role i).isHolder = true → (w.role j).isHolder = true → i = j
  active : ∀ id, c.active = some id → c.phase = .running ∧ (c.channel id).isClosing = false ∧
    ((c.channel id).isDead = true → Overtaken w.told.clients id)
  idle : c.phase = .running → c.active = none → ∃ i, w.role i = .stopping
  reader : ∀ i, c.reader = some i → w.role i = .reader ∨ w.role i = .gone

def pact : Pact Tale Duty Server where
  holds w s := Sound w s.client
  shows _ _ := True
  own g g' := g'.clients = g.clients
  others g g' := g.clients <:+ g'.clients ∧ g'.hasTurned = false
  unborn := .unborn
  gone := .gone
  isLoose := Duty.isReader

variable {α β : Type} {w : World Tale Duty} {c d : Client} {s : Server} {i me : TaskId} {r : Duty}
  {id : ChannelId}

theorem pact_isFair : pact.IsFair where
  own_refl _ := rfl
  own_trans _ _ _ hf hg := Eq.trans hg hf
  others_trans _ _ _ hf hg := ⟨hf.1.trans hg.1, hg.2⟩
  others_of_own _ _ _ hf hg := by
    have hf : _ = _ := hf
    exact ⟨hf ▸ hg.1, hg.2⟩
  shows_own _ _ _ _ _ := trivial
  gone_ne h := by cases h
  unborn_fast := rfl

theorem isLive_guest : pact.IsLive .guest := ⟨by simp [pact], by simp [pact]⟩

theorem isLive_reader : pact.IsLive .reader := ⟨by simp [pact], by simp [pact]⟩

theorem isLive_of_isHolder (h : r.isHolder = true) : pact.IsLive r := by
  constructor <;> rintro rfl <;> cases h

theorem Overtaken.of_suffix {older h : List Client} (ho : Overtaken older id) (hh : older <:+ h) :
    Overtaken h id := by
  obtain ⟨c, hc, hstarting⟩ := ho
  exact ⟨c, hh.subset hc, hstarting⟩

theorem Duty.fits_of_not_isHolder (h : r.isHolder = false) : r.Fits c := by
  cases r <;> trivial

theorem Duty.Fits.same (h : r.Fits c) (hd : c.SameStanding d) : r.Fits d := by
  cases r with
  | readying =>
    have h : c.phase ≠ .running := h
    rw [← hd.phase] at h
    exact h
  | starting probed =>
    obtain ⟨hphase, hactive, hprobed⟩ := h
    refine ⟨hd.phase.trans hphase, hd.active.trans hactive, fun id hid => ?_⟩
    obtain ⟨hcurrent, hclosing⟩ := hprobed id hid
    exact ⟨hd.current.trans hcurrent, (hd.isClosing id).trans hclosing⟩
  | stopping => exact hd.active.trans h
  | _ => trivial

namespace Sound

theorem same (hs : Sound w c) (hd : c.SameStanding d) : Sound w d where
  told hw := by
    obtain ⟨e, he, hec⟩ := hs.told hw
    exact ⟨e, he, hec.trans hd⟩
  fits i := (hs.fits i).same hd
  locked i hi := hd.isChanging.trans (hs.locked i hi)
  single := hs.single
  active id hid := by
    have hid : c.active = some id := hd.active ▸ hid
    obtain ⟨hphase, hclosing, hdead⟩ := hs.active id hid
    refine ⟨hd.phase.trans hphase, (hd.isClosing id).trans hclosing, fun hd' => hdead ?_⟩
    exact (hd.isDead id).symm.trans hd'
  idle hphase hactive := hs.idle (hd.phase ▸ hphase) (hd.active ▸ hactive)
  reader i hi := hs.reader i (hd.reader ▸ hi)

/-- There is one more moment to tell of. -/
theorem later (hs : Sound w c) {h : List Client} (hh : w.told.clients <:+ h)
    (htold : ∃ d ∈ h, d.SameStanding c) : Sound (w.tell ⟨h, false⟩) c where
  told _ := htold
  fits := hs.fits
  locked := hs.locked
  single := hs.single
  active id hid := by
    obtain ⟨hphase, hclosing, hdead⟩ := hs.active id hid
    exact ⟨hphase, hclosing, fun h => (hdead h).of_suffix hh⟩
  idle := hs.idle
  reader := hs.reader

/-- A task that does not have the lock takes another part without it. -/
theorem cast (hs : Sound w c) (hold : (w.role i).isHolder = false) (hnew : r.isHolder = false)
    (hreader : c.reader = some i → r = .reader ∨ r = .gone) : Sound (w.cast i r) c := by
  have hrole {j : TaskId} (hj : ((w.cast i r).role j).isHolder = true) :
      (w.role j).isHolder = true := by
    rw [World.role_cast] at hj
    split at hj
    · cases hnew.symm.trans hj
    · exact hj
  refine ⟨hs.told, fun j => ?_, fun j hj => hs.locked j (hrole hj),
    fun j k hj hk => hs.single j k (hrole hj) (hrole hk), hs.active, fun hphase hactive => ?_,
    fun j hj => ?_⟩
  · rw [World.role_cast]
    split
    · exact Duty.fits_of_not_isHolder hnew
    · exact hs.fits j
  · obtain ⟨j, hj⟩ := hs.idle hphase hactive
    have hne : j ≠ i := by
      rintro rfl
      rw [hj] at hold
      cases hold
    exact ⟨j, (w.role_cast_of_ne r hne).trans hj⟩
  · rw [World.role_cast]
    split
    · next hji => exact hreader (hji ▸ hj)
    · exact hs.reader j hj

/-- Who alone may have the lock goes on with another part. -/
theorem hold (halone : ∀ j, j ≠ me → (w.role j).isHolder = false) (hr : r.Fits d)
    (hlock : r.isHolder = true → d.isChanging = true)
    (hactive : ∀ id, d.active = some id → d.phase = .running ∧ (d.channel id).isClosing = false ∧
      ((d.channel id).isDead = true → Overtaken w.told.clients id))
    (hidle : d.phase = .running → d.active = none → r = .stopping)
    (hreader : ∀ i, d.reader = some i → i ≠ me ∧ (w.role i = .reader ∨ w.role i = .gone)) :
    Sound ((w.tell w.told.turned).cast me r) d := by
  have hrole {j : TaskId} (hj : j ≠ me) : ((w.tell w.told.turned).cast me r).role j = w.role j :=
    World.role_cast_of_ne _ r hj
  have hme {j : TaskId} (hj : (((w.tell w.told.turned).cast me r).role j).isHolder = true) :
      j = me := by
    by_contra hne
    rw [hrole hne, halone j hne] at hj
    cases hj
  refine ⟨fun hturned => ?_, fun j => ?_, fun j hj => ?_, fun j k hj hk => (hme hj).trans (hme hk).symm,
    hactive, fun hphase hnone => ⟨me, ?_⟩, fun j hj => ?_⟩
  · cases hturned
  · by_cases hj : j = me
    · rw [hj, World.role_cast_self]
      exact hr
    · exact Duty.fits_of_not_isHolder (hrole hj ▸ halone j hj)
  · rw [hme hj, World.role_cast_self] at hj
    exact hlock hj
  · rw [World.role_cast_self]
    exact hidle hphase hnone
  · obtain ⟨hne, hj⟩ := hreader j hj
    rw [hrole hne]
    exact hj

theorem alone (hs : Sound w c) (hme : (w.role me).isHolder = true) {j : TaskId} (hj : j ≠ me) :
    (w.role j).isHolder = false := by
  by_contra hholder
  exact hj (hs.single j me (by simpa using hholder) hme)

theorem ne_of_reader (hs : Sound w c) (hme : (w.role me).isHolder = true) (hi : c.reader = some i) :
    i ≠ me ∧ (w.role i = .reader ∨ w.role i = .gone) := by
  have hrole := hs.reader i hi
  refine ⟨?_, hrole⟩
  rintro rfl
  obtain h | h := hrole <;> rw [h] at hme <;> cases hme

/-- A step of the one who has the lock that leaves no channel active. -/
theorem step (hs : Sound w c) (hme : (w.role me).isHolder = true) (hr : r.Fits d)
    (hlock : d.isChanging = c.isChanging) (hreader : d.reader = c.reader) (hnone : d.active = none)
    (hidle : d.phase = .running → r = .stopping) : Sound ((w.tell w.told.turned).cast me r) d := by
  refine .hold (fun j => hs.alone hme) hr (fun _ => hlock.trans (hs.locked me hme)) (fun id hid => ?_)
    (fun hphase _ => hidle hphase) fun i hi => hs.ne_of_reader hme (hreader ▸ hi)
  cases hnone.symm.trans hid

/-- Who starts or stops the process drops the reader. -/
theorem unread (hs : Sound w c) (hme : w.role me = r) (hr : r = .starting none ∨ r = .stopping) :
    Sound ((w.tell w.told.turned).cast me r) { c with reader := none } := by
  have hfits := hs.fits me
  have hholder : (w.role me).isHolder = true := by
    rw [hme]
    obtain rfl | rfl := hr <;> rfl
  rw [hme] at hfits
  refine .hold (fun j => hs.alone hholder) ?_ (fun _ => hs.locked me hholder) (fun id hid => ?_)
    (fun hphase _ => ?_) fun i hi => by cases hi
  · obtain rfl | rfl := hr
    · exact ⟨hfits.1, hfits.2.1, fun id hid => by cases hid⟩
    · exact hfits
  · obtain rfl | rfl := hr
    · cases hfits.2.1.symm.trans hid
    · have hfits : c.active = none := hfits
      cases hfits.symm.trans hid
  · obtain rfl | rfl := hr
    · cases hfits.1.symm.trans hphase
    · rfl

theorem acquire (hs : Sound w c) (hfree : c.isChanging = false) (hme : w.role me = .guest) :
    Sound ((w.tell w.told.turned).cast me .holding) { c with isChanging := true } := by
  have hnone (j : TaskId) : (w.role j).isHolder = false := by
    by_contra hholder
    cases hfree.symm.trans (hs.locked j (by simpa using hholder))
  refine .hold (fun j _ => hnone j) trivial (fun _ => rfl) hs.active (fun hphase hactive => ?_)
    fun i hi => ⟨?_, hs.reader i hi⟩
  · obtain ⟨j, hj⟩ := hs.idle hphase hactive
    have hj' := hnone j
    rw [hj] at hj'
    cases hj'
  · rintro rfl
    obtain h | h := hs.reader i hi <;> cases hme.symm.trans h

theorem active_of_holding (hs : Sound w c) (hme : w.role me = .holding) (hphase : c.phase = .running) :
    c.active ≠ none := by
  intro hactive
  obtain ⟨j, hj⟩ := hs.idle hphase hactive
  have hjme : j = me := hs.single j me (hj ▸ rfl) (hme ▸ rfl)
  cases hme.symm.trans (hjme ▸ hj)

theorem release (hs : Sound w c) (hme : w.role me = .holding) :
    Sound ((w.tell w.told.turned).cast me .guest) { c with isChanging := false } := by
  have hholder : (w.role me).isHolder = true := hme ▸ rfl
  refine .hold (fun j => hs.alone hholder) trivial (fun h => by cases h) hs.active
    (fun hphase hactive => ?_) fun i hi => hs.ne_of_reader hholder hi
  exact absurd hactive (hs.active_of_holding hme hphase)

/-- Who has the lock has seen whether the process is up. -/
theorem consider (hs : Sound w c) (hme : w.role me = .holding) (hr : r.Fits c) :
    Sound ((w.tell w.told.turned).cast me r) c := by
  have hholder : (w.role me).isHolder = true := hme ▸ rfl
  refine .hold (fun j => hs.alone hholder) hr (fun _ => hs.locked me hholder) hs.active
    (fun hphase hactive => ?_) fun i hi => hs.ne_of_reader hholder hi
  exact absurd hactive (hs.active_of_holding hme hphase)

/-- A channel that was probed becomes the active one. -/
theorem activate (hs : Sound w c) (hme : w.role me = .starting (some id))
    (hturned : w.told.hasTurned = false) : Sound ((w.tell w.told.turned).cast me .holding)
      (({ c with active := some id, phase := .running } : Client).emit (.started (c.channel id).pid)) := by
  have hholder : (w.role me).isHolder = true := hme ▸ rfl
  have hfits := hs.fits me
  rw [hme] at hfits
  obtain ⟨hphase, hactive, hprobed⟩ := hfits
  obtain ⟨hcurrent, hclosing⟩ := hprobed id rfl
  refine .hold (fun j => hs.alone hholder) trivial (fun _ => hs.locked me hholder) (fun j hj => ?_)
    (fun _ hnone => by cases hnone) fun i hi => hs.ne_of_reader hholder hi
  cases hj
  refine ⟨rfl, hclosing, fun hdead => ?_⟩
  obtain ⟨e, he, hec⟩ := hs.told hturned
  exact ⟨e, he, hec.phase ▸ hphase, hec.active ▸ hactive, hec.current ▸ hcurrent, hec.isDead id ▸ hdead⟩

/-- A reader is done; it has left the active channel alone or taken it away. -/
theorem leave (hs : Sound w c) (hme : w.role me = .reader) (hfits : ∀ j, (w.role j).Fits d)
    (hlock : d.isChanging = c.isChanging) (hreader : d.reader = c.reader)
    (hactive : ∀ id, d.active = some id → c.active = some id ∧ d.phase = c.phase ∧
      d.channel id = c.channel id)
    (hidle : d.phase = .running → d.active = none → c.phase = .running ∧ c.active = none) :
    Sound ((w.tell w.told.turned).cast me .gone) d := by
  have hdone : Sound (w.cast me .gone) c := hs.cast (hme ▸ rfl) rfl fun _ => .inr rfl
  refine ⟨fun hturned => ?_, fun j => ?_, fun j hj => hlock.trans (hdone.locked j hj), hdone.single,
    fun id hid => ?_, fun hphase hnone => ?_, fun j hj => hdone.reader j (hreader ▸ hj)⟩
  · cases hturned
  · rw [World.role_cast]
    split
    · trivial
    · exact hfits j
  · obtain ⟨hid, hphase, hchannel⟩ := hactive id hid
    rw [hphase, hchannel]
    exact hs.active id hid
  · obtain ⟨hphase, hnone⟩ := hidle hphase hnone
    exact hdone.idle hphase hnone

theorem fits_failAll (hs : Sound w c) (f : Failure) (j : TaskId) :
    (w.role j).Fits (c.updateChannel id (·.failAll f)) := by
  have hclosing (k : ChannelId) :
      ((c.updateChannel id (·.failAll f)).channel k).isClosing = (c.channel k).isClosing := by
    rw [Client.channel_updateChannel]
    split
    · next hk =>
      rw [← eq_of_beq hk]
      rfl
    · rfl
  have hfits := hs.fits j
  cases hrole : w.role j with
  | starting probed =>
    rw [hrole] at hfits
    obtain ⟨hphase, hactive, hprobed⟩ := hfits
    exact ⟨hphase, hactive, fun k hk => ⟨(hprobed k hk).1, (hclosing k).trans (hprobed k hk).2⟩⟩
  | readying =>
    rw [hrole] at hfits
    exact hfits
  | stopping =>
    rw [hrole] at hfits
    exact hfits
  | _ => trivial

/-- The requests fail that wait on a channel that is not the active one. -/
theorem fail (hs : Sound w c) (hme : w.role me = .reader) (hid : c.active ≠ some id) (f : Failure) :
    Sound ((w.tell w.told.turned).cast me .gone) (c.updateChannel id (·.failAll f)) := by
  refine hs.leave hme (hs.fits_failAll f) rfl rfl (fun k hk => ⟨hk, rfl, ?_⟩) fun hphase hnone =>
    ⟨hphase, hnone⟩
  have hne : (id == k) = false := by
    rw [beq_eq_false_iff_ne]
    rintro rfl
    exact hid hk
  rw [Client.channel_updateChannel, hne]
  rfl

theorem disconnect (hs : Sound w c) (hme : w.role me = .reader) (code : Option Int) :
    Sound ((w.tell w.told.turned).cast me .gone) (c.disconnect id code) := by
  by_cases hid : c.active = some id
  · have hfits (j : TaskId) : (w.role j).Fits (c.disconnect id code) := by
      have hfits := hs.fits j
      cases hrole : w.role j with
      | starting probed =>
        rw [hrole] at hfits
        cases hid.symm.trans hfits.2.1
      | readying =>
        intro hphase
        simp [Client.disconnect, hid, Client.emit, Client.updateChannel] at hphase
      | stopping =>
        rw [hrole] at hfits
        cases hid.symm.trans hfits
      | _ => trivial
    have hactive : (c.disconnect id code).active = none := by
      simp [Client.disconnect, hid, Client.emit, Client.updateChannel]
    have hphase : (c.disconnect id code).phase = .crashed code := by
      simp [Client.disconnect, hid, Client.emit, Client.updateChannel]
    refine hs.leave hme hfits ?_ ?_ (fun k hk => ?_) fun hrunning => ?_
    · simp [Client.disconnect, hid, Client.emit, Client.updateChannel]
    · simp [Client.disconnect, hid, Client.emit, Client.updateChannel]
    · cases hactive.symm.trans hk
    · cases hphase.symm.trans hrunning
  · have hsame : c.disconnect id code = c.updateChannel id (·.failAll (.crashed code)) := by
      simp [Client.disconnect, hid]
    rw [hsame]
    exact hs.fail hme hid _

end Sound
end LanguageServer.Server.Uptime
