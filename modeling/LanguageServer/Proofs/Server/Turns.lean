import LanguageServer.Proofs.Server.Journal

/-! Who starts and stops the analysis process, how far each has come, and the pact under which they take
turns. One task at a time starts or stops the process, and one at a time looks after a start. -/
namespace LanguageServer.Server.Journal

open Analyzer

/-- How far a caller has come that starts or stops the process: whether it has the lock, what it has found,
the channel that it probes, the channel that it has taken away, and what has come of it. -/
inductive Life where
  | out
  | holding
  | readying
  | clearing
  | opening
  | probing (id : ChannelId)
  | failed
  | stopping
  | ending (taken : Option ChannelId)
  | stopped

/-- Whether a caller looks after a start, and whether it has decided on one. -/
inductive Helm where
  | away
  | keeping
  | tried

/-- The part that a task plays. -/
inductive Duty where
  | unborn
  | gone
  | reader
  | caller (helm : Helm) (life : Life)

namespace Life

def isIn : Life → Bool
  | .out => false
  | _ => true

/-- How things stand while a caller has come so far. -/
def Fits (x : Watched) : Life → Prop
  | .out => True
  | .holding => x.server.client.phase ≠ .starting
  | .readying => x.server.client.phase ≠ .running ∧ x.server.client.phase ≠ .starting
  | .clearing => x.server.client.phase = .starting
  | .opening => x.server.client.phase = .starting ∧ x.server.client.current = none
  | .probing id => x.server.client.phase = .starting ∧ x.server.client.current = some id ∧
      id < x.server.client.freshId ∧ ∀ j e, (some j, e) ∈ notices x.log → j < id
  | .failed => Failed x.server.client
  | .stopping => x.server.client.phase ≠ .starting ∧ x.server.client.active = none
  | .ending taken => x.server.client.phase ≠ .starting ∧ x.server.client.active = none ∧
      x.server.client.current = none ∧ ∀ id, taken = some id →
        x.log.findSome? Moment.current? = some id ∧ IsLatest id (notices x.log)
  | .stopped => x.server.client.phase = .stopped ∧ x.server.client.active = none

end Life

namespace Duty

def life : Duty → Life
  | .caller _ l => l
  | _ => .out

def helm : Duty → Helm
  | .caller h _ => h
  | _ => .away

def isReader : Duty → Bool
  | .reader => true
  | _ => false

end Duty

abbrev Ranks := World (List Moment) Duty

/-- Everyone has come as far as their part says, and nobody has a lock that another has. -/
structure Staged (isOpen : Bool) (w : Ranks) (x : Watched) : Prop where
  fits : ∀ i, (w.role i).life.Fits x
  locked : ∀ i, (w.role i).life.isIn = true → x.server.client.isChanging = true
  single : ∀ i j, (w.role i).life.isIn = true → (w.role j).life.isIn = true → i = j
  held : ∀ i, (w.role i).helm ≠ .away → x.server.starts.isHeld = true
  sole : ∀ i j, (w.role i).helm ≠ .away → (w.role j).helm ≠ .away → i = j
  decided : ∀ i, (w.role i).helm = .tried → HeldSince x.log
  reader : ∀ i, x.server.client.reader = some i → w.role i = .reader ∨ w.role i = .gone

structure Sound (isOpen : Bool) (w : Ranks) (x : Watched) : Prop extends Tied isOpen x, Staged isOpen w x where
  log : w.told <:+ x.log

/-- What is told is a journal that there has been. -/
def pact (isOpen : Bool) : Pact (List Moment) Duty Watched where
  holds := Sound isOpen
  shows _ _ := True
  own g g' := g <:+ g'
  others g g' := g <:+ g'
  unborn := .unborn
  gone := .gone
  isLoose := Duty.isReader

theorem pact_isFair (isOpen : Bool) : (pact isOpen).IsFair where
  own_refl _ := List.suffix_rfl
  own_trans _ _ _ hf hg := List.IsSuffix.trans hf hg
  others_trans _ _ _ hf hg := List.IsSuffix.trans hf hg
  others_of_own _ _ _ hf hg := List.IsSuffix.trans hf hg
  shows_own _ _ _ _ _ := trivial
  gone_ne h := by cases h
  unborn_fast := rfl

variable {isOpen : Bool} {w v : Ranks} {x : Watched} {s s' : Server} {i me : TaskId} {r : Duty} {h h' : Helm}
  {l l' : Life} {id : ChannelId}

theorem isLive_reader : (pact isOpen).IsLive .reader := ⟨nofun, nofun⟩

theorem isLive_caller : (pact isOpen).IsLive (.caller h l) := ⟨nofun, nofun⟩

theorem Helm.ne_away (hh : h = .tried) : h ≠ .away := by
  rw [hh]
  exact nofun

theorem Life.fits_of_not_isIn (hl : l.isIn = false) : l.Fits x := by
  cases l with
  | out => trivial
  | _ => cases hl

/-- How far a caller has come is not changed by a step that has nothing to do with it. -/
theorem Life.Fits.same (hl : l.Fits x) (hphase : s'.client.phase = x.server.client.phase)
    (hactive : s'.client.active = x.server.client.active)
    (hcurrent : s'.client.current = x.server.client.current)
    (hevents : s'.client.events = x.server.client.events)
    (hfresh : x.server.client.freshId ≤ s'.client.freshId) : l.Fits (watcher.set s' x) := by
  have hnotices : notices (watcher.set s' x).log = notices x.log := notices_silent hevents
  have hserver : (watcher.set s' x).server = s' := rfl
  cases l with
  | out => trivial
  | ending taken =>
    obtain ⟨hstarting, hnone, hcleared, htaken⟩ := hl
    refine ⟨?_, hactive.trans hnone, hcurrent.trans hcleared, fun id hid => ?_⟩
    · rw [hserver, hphase]
      exact hstarting
    · obtain ⟨hlast, hlatest⟩ := htaken id hid
      have hstep : (watcher.set s' x).log.findSome? Moment.current? = x.log.findSome? Moment.current? := by
        show (Moment.step x.server s' :: x.log).findSome? Moment.current? = _
        rw [List.findSome?_cons, Moment.current?, hcleared]
      rw [hstep, hnotices]
      exact ⟨hlast, hlatest⟩
  | probing id =>
    obtain ⟨hstarting, hid, hlt, hnew⟩ := hl
    refine ⟨hphase.trans hstarting, hcurrent.trans hid, Nat.lt_of_lt_of_le hlt hfresh, ?_⟩
    rw [hnotices]
    exact hnew
  | failed =>
    obtain ⟨hfailed, hnone, hcleared⟩ := hl
    exact ⟨hphase.trans hfailed, hactive.trans hnone, hcurrent.trans hcleared⟩
  | _ =>
    simp only [Life.Fits, hserver, hphase, hactive, hcurrent] at hl ⊢
    exact hl

/-- One task goes on with another part, and how things stand may be different. -/
theorem Staged.turn (hs : Staged isOpen w x) (me : TaskId) {y : Watched} (hothers : ∀ i, i ≠ me → v.role i = w.role i)
    (hfits : ∀ i, i ≠ me → (w.role i).life.Fits y) (hself : (v.role me).life.Fits y)
    (hlocked : ∀ i, i ≠ me → (w.role i).life.isIn = true →
      y.server.client.isChanging = true ∧ (v.role me).life.isIn = false)
    (hlock : (v.role me).life.isIn = true → y.server.client.isChanging = true)
    (hheld : ∀ i, i ≠ me → (w.role i).helm ≠ .away → y.server.starts.isHeld = true ∧ (v.role me).helm = .away)
    (hhold : (v.role me).helm ≠ .away → y.server.starts.isHeld = true)
    (hdecided : ∀ i, i ≠ me → (w.role i).helm = .tried → HeldSince y.log)
    (htried : (v.role me).helm = .tried → HeldSince y.log)
    (hreader : ∀ i, y.server.client.reader = some i → v.role i = .reader ∨ v.role i = .gone) :
    Staged isOpen v y where
  fits i := by
    by_cases hi : i = me
    · rwa [hi]
    · rw [hothers i hi]
      exact hfits i hi
  locked i hin := by
    by_cases hi : i = me
    · exact hlock (hi ▸ hin)
    · exact (hlocked i hi (hothers i hi ▸ hin)).1
  single i j hin hjn := by
    by_cases hi : i = me
    · by_cases hj : j = me
      · exact hi.trans hj.symm
      · have hfree := (hlocked j hj (hothers j hj ▸ hjn)).2
        cases (hi ▸ hin).symm.trans hfree
    · have hin := hothers i hi ▸ hin
      by_cases hj : j = me
      · cases (hj ▸ hjn).symm.trans (hlocked i hi hin).2
      · exact hs.single i j hin (hothers j hj ▸ hjn)
  held i hhelm := by
    by_cases hi : i = me
    · exact hhold (hi ▸ hhelm)
    · exact (hheld i hi (hothers i hi ▸ hhelm)).1
  sole i j hhelm hhelm' := by
    by_cases hi : i = me
    · by_cases hj : j = me
      · exact hi.trans hj.symm
      · exact absurd (hheld j hj (hothers j hj ▸ hhelm')).2 (hi ▸ hhelm)
    · have hhelm := hothers i hi ▸ hhelm
      by_cases hj : j = me
      · exact absurd (hheld i hi hhelm).2 (hj ▸ hhelm')
      · exact hs.sole i j hhelm (hothers j hj ▸ hhelm')
  decided i hi' := by
    by_cases hi : i = me
    · exact htried (hi ▸ hi')
    · exact hdecided i hi (hothers i hi ▸ hi')
  reader := hreader

/-- Who starts or stops the process does not read from it. -/
theorem ne_of_reads (hme : w.role me = .caller h l) (hi : w.role i = .reader ∨ w.role i = .gone) : i ≠ me := by
  rintro rfl
  rw [hme] at hi
  obtain hi | hi := hi <;> cases hi

namespace Sound

theorem alone (hs : Sound isOpen w x) (hme : (w.role me).life.isIn = true) (hi : i ≠ me) :
    (w.role i).life.isIn = false :=
  Bool.eq_false_iff.mpr fun hin => hi (hs.single i me hin hme)

/-- A task takes another part, for which nothing need have happened. -/
theorem cast (hs : Sound isOpen w x) (hr : r.life.Fits x) (hin : r.life.isIn = true → (w.role me).life.isIn = true)
    (hhelm : r.helm ≠ .away → (w.role me).helm ≠ .away) (htried : r.helm = .tried → HeldSince x.log)
    (hreader : x.server.client.reader = some me → r = .reader ∨ r = .gone) :
    Sound isOpen (w.cast me r) x := by
  have hself : (w.cast me r).role me = r := w.role_cast_self me r
  refine ⟨hs.toTied, hs.toStaged.turn me (fun i hi => w.role_cast_of_ne r hi) (fun i _ => hs.fits i)
    (hself.symm ▸ hr) (fun i hi hin' => ⟨hs.locked i hin', ?_⟩) (fun hin' => ?_)
    (fun i hi hhelm' => ⟨hs.held i hhelm', ?_⟩) (fun hhelm' => ?_) (fun i _ => hs.decided i) ?_
    (fun i hi => ?_), hs.log⟩
  · rw [hself]
    exact Bool.eq_false_iff.mpr fun h => hi (hs.single i me hin' (hin h))
  · exact hs.locked me (hin (hself ▸ hin'))
  · rw [hself]
    by_contra h
    exact hi (hs.sole i me hhelm' (hhelm h))
  · exact hs.held me (hhelm (hself ▸ hhelm'))
  · rwa [hself]
  · by_cases hime : i = me
    · rw [hime, hself]
      exact hreader (hime ▸ hi)
    · rw [w.role_cast_of_ne r hime]
      exact hs.reader i hi

/-- A step that has to do with how far its caller has come. -/
theorem drive (hs : Sound isOpen w x) (hme : w.role me = .caller h l)
    (halone : ∀ i, i ≠ me → (w.role i).life.isIn = false) (htied : Tied isOpen (watcher.set s' x))
    (hl : l'.Fits (watcher.set s' x)) (hlock : l'.isIn = true → s'.client.isChanging = true)
    (hheld : s'.starts.isHeld = x.server.starts.isHeld)
    (hreader : s'.client.reader = x.server.client.reader) :
    Sound isOpen (w.cast me (.caller h l')) (watcher.set s' x) := by
  have hself := w.role_cast_self me (.caller h l')
  have hhelm : (w.role me).helm = h := hme ▸ rfl
  have hstep {i : TaskId} (hi : (w.role i).helm ≠ .away) : s'.starts.isHeld = true := hheld.trans (hs.held i hi)
  refine ⟨htied, hs.toStaged.turn me (fun i hi => World.role_cast_of_ne _ _ hi)
    (fun i hi => Life.fits_of_not_isIn (halone i hi)) (hself.symm ▸ hl) (fun i hi hin => ?_) (fun hin => ?_)
    (fun i hi hhelm' => ⟨hstep hhelm', ?_⟩) (fun hhelm' => ?_) (fun i _ htried => ?_) (fun htried => ?_)
    (fun i hi => ?_), hs.log.trans (List.suffix_cons _ _)⟩
  · cases (halone i hi).symm.trans hin
  · rw [hself] at hin
    exact hlock hin
  · rw [hself]
    show h = .away
    by_contra hne
    exact hi (hs.sole i me hhelm' (hhelm ▸ hne))
  · rw [hself] at hhelm'
    exact hstep (hhelm ▸ hhelm')
  · exact (hs.decided i htried).step (hstep (Helm.ne_away htried))
  · rw [hself] at htried
    have htried : (w.role me).helm = .tried := hhelm.trans htried
    exact (hs.decided me htried).step (hstep (Helm.ne_away htried))
  · have hi := hs.reader i (hreader ▸ hi)
    rwa [World.role_cast_of_ne _ _ (ne_of_reads hme hi)]

/-- A step that has to do with who looks after a start. -/
theorem steer (hs : Sound isOpen w x) (hme : w.role me = .caller h l) (hs' : Alike x.server s')
    (hreader : s'.client.reader = x.server.client.reader)
    (hheld : ∀ i, i ≠ me → (w.role i).helm ≠ .away → s'.starts.isHeld = true ∧ h' = .away)
    (hhold : h' ≠ .away → s'.starts.isHeld = true)
    (htried : h' = .tried → HeldSince (watcher.set s' x).log) :
    Sound isOpen (w.cast me (.caller h' l)) (watcher.set s' x) := by
  have hself := w.role_cast_self me (.caller h' l)
  have hlife : (w.role me).life = l := hme ▸ rfl
  have hfits (i : TaskId) : (w.role i).life.Fits (watcher.set s' x) :=
    (hs.fits i).same hs'.phase hs'.active hs'.current hs'.events hs'.fresh
  refine ⟨hs.toTied.alike hs', hs.toStaged.turn me (fun i hi => World.role_cast_of_ne _ _ hi)
    (fun i _ => hfits i) ?_ (fun i hi hin => ⟨hs'.isChanging.trans (hs.locked i hin), ?_⟩) (fun hin => ?_)
    (fun i hi hhelm => ?_) (fun hhelm => ?_) (fun i hi hi' => ?_) (fun h => ?_) (fun i hi => ?_),
    hs.log.trans (List.suffix_cons _ _)⟩
  · rw [hself]
    exact hlife ▸ hfits me
  · rw [hself]
    exact Bool.eq_false_iff.mpr fun h => hi (hs.single i me hin (hlife ▸ h))
  · rw [hself] at hin
    exact hs'.isChanging.trans (hs.locked me (hlife ▸ hin))
  · rw [hself]
    exact hheld i hi hhelm
  · rw [hself] at hhelm
    exact hhold hhelm
  · exact (hs.decided i hi').step (hheld i hi (Helm.ne_away hi')).1
  · rw [hself] at h
    exact htried h
  · have hi := hs.reader i (hreader ▸ hi)
    rwa [World.role_cast_of_ne _ _ (ne_of_reads hme hi)]

/-- A step that has nothing to do with starts and stops. -/
theorem alike (hs : Sound isOpen w x) (hs' : Alike x.server s')
    (hheld : s'.starts.isHeld = x.server.starts.isHeld)
    (hreader : ∀ i, s'.client.reader = some i → w.role i = .reader ∨ w.role i = .gone) :
    Sound isOpen w (watcher.set s' x) := by
  refine ⟨hs.toTied.alike hs', ⟨fun i => ?_, fun i hi => hs'.isChanging.trans (hs.locked i hi), hs.single,
    fun i hi => hheld.trans (hs.held i hi), hs.sole, fun i hi => ?_, hreader⟩, hs.log.trans (List.suffix_cons _ _)⟩
  · exact (hs.fits i).same hs'.phase hs'.active hs'.current hs'.events hs'.fresh
  · exact (hs.decided i hi).step (hheld.trans (hs.held i (Helm.ne_away hi)))

theorem undriven (hs : Sound isOpen w x) (hs' : Undriven x.server s') : Sound isOpen w (watcher.set s' x) :=
  hs.alike hs'.toAlike hs'.isHeld fun i hi => hs.reader i (hs'.reader ▸ hi)

/-- Something besides a step is written down. -/
theorem note {m : Moment} (hs : Sound isOpen w x) (hm : m.Notes x) : Sound isOpen w (x.note m) := by
  have hnotices : notices (x.note m).log = notices x.log := hm.isStill.notices
  have hcurrent : (x.note m).log.findSome? Moment.current? = x.log.findSome? Moment.current? := hm.isStill.current?
  have hserver : (x.note m).server = x.server := rfl
  refine ⟨hs.toTied.note hm, ⟨fun i => ?_, hs.locked, hs.single, hs.held, hs.sole, fun i hi => ?_, hs.reader⟩,
    hs.log.trans (List.suffix_cons _ _)⟩
  · have hfits := hs.fits i
    show (w.role i).life.Fits (x.note m)
    cases hl : (w.role i).life with
    | out => trivial
    | _ =>
      rw [hl] at hfits
      simpa only [Life.Fits, hserver, hnotices, hcurrent] using hfits
  · exact (hs.decided i hi).note hm (hs.held i (Helm.ne_away hi))

/-- The process of the active channel is gone. -/
theorem crash (hs : Sound isOpen w x) (hid : x.server.client.active = some id) (code : Option Int)
    (hs' : s' = { x.server with client := x.server.client.disconnect id code }) :
    Sound isOpen w (watcher.set s' x) := by
  obtain ⟨hphase, hcurrent, pid, hlast⟩ := hs.active id hid
  have hclient : s'.client = { x.server.client with
      active := none
      phase := .crashed code
      channels := x.server.client.channels.insert id ((x.server.client.channel id).failAll (.crashed code))
      events := x.server.client.events ++ [.crashed code] } := by
    rw [hs']
    simp [Client.disconnect, hid, Client.emit, Client.updateChannel, Client.channel]
  have hfresh : x.server.client.freshId ≤ s'.client.freshId := by
    rw [hclient]
    exact x.server.client.freshId_le_insert id _ x.server.client.nextRequest
  obtain ⟨ns, hns⟩ : ∃ ns, notices x.log = (some id, .started pid) :: ns := by
    obtain ⟨ns, hns⟩ := List.head?_eq_some_iff.mp hlast
    exact ⟨ns, hns⟩
  have hmem : (some id, .started pid) ∈ notices x.log := hns ▸ List.mem_cons_self
  have htied : Tied isOpen (watcher.set s' x) := by
    refine hs.toTied.emits (e := .crashed code) ?_ hid ?_ ?_ ⟨hfresh, ?_, ?_⟩ ?_ ?_ ?_ ?_
    · rw [hclient]
    · rw [hns]
      exact .crashed code (hns ▸ hs.orderly)
    · exact Nat.lt_of_lt_of_le (hs.bounded id _ hmem) hfresh
    · rw [hclient]
      exact fun _ _ h => h
    · rw [hs']
      exact fun h => h
    · rw [hclient]
      exact fun _ h => by cases h
    · rw [hclient]
      intro j hj
      exact ⟨Option.some.inj (hj.symm.trans hcurrent), fun h => by cases h⟩
    · rw [hclient]
      exact fun h => by cases h
    · intro _ hnone
      cases hid.symm.trans hnone
  have hfits (i : TaskId) : (w.role i).life.Fits (watcher.set s' x) := by
    have hfits := hs.fits i
    -- a channel takes requests, so that nobody is between the first and the last step of a start or a stop
    have hnot : x.server.client.phase ≠ .starting := by
      rw [hphase]
      exact fun h => by cases h
    have hserver : (watcher.set s' x).server.client.phase = .crashed code := by
      show s'.client.phase = _
      rw [hclient]
    cases hl : (w.role i).life with
    | out => trivial
    | holding =>
      show (watcher.set s' x).server.client.phase ≠ .starting
      rw [hserver]
      exact fun h => by cases h
    | readying =>
      rw [hl] at hfits
      exact absurd hphase hfits.1
    | clearing =>
      rw [hl] at hfits
      exact absurd hfits hnot
    | opening | probing =>
      rw [hl] at hfits
      exact absurd hfits.1 hnot
    | failed =>
      rw [hl] at hfits
      cases hid.symm.trans hfits.active
    | stopping | stopped =>
      rw [hl] at hfits
      cases hid.symm.trans hfits.2
    | ending =>
      rw [hl] at hfits
      cases hid.symm.trans hfits.2.1
  have hheld : s'.starts.isHeld = x.server.starts.isHeld := by rw [hs']
  refine ⟨htied, ⟨hfits, fun i hi => ?_, hs.single, fun i hi => hheld.trans (hs.held i hi), hs.sole, fun i hi => ?_,
    fun i hi => ?_⟩, hs.log.trans (List.suffix_cons _ _)⟩
  · show s'.client.isChanging = true
    rw [hclient]
    exact hs.locked i hi
  · exact (hs.decided i hi).step (hheld.trans (hs.held i (Helm.ne_away hi)))
  · have hreader : s'.client.reader = x.server.client.reader := by rw [hclient]
    exact hs.reader i (hreader ▸ hi)

end Sound

end LanguageServer.Server.Journal
