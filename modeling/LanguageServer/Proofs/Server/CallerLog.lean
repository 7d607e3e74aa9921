import LanguageServer.Proofs.Server.Crew

/-! What the turns taken so far say of where the callers are, and of what is remembered of starts. -/
namespace LanguageServer.Server.Guard

open Analyzer Machine

variable {crew fresh : Crew} {s : Server} {next i : TaskId} {x : Station} {y : Option Station}

/-- Whether a task waits for the state to be ready. -/
def waits {α : Type} : Job α → Bool
  | .wait _ _ _ => true
  | _ => false

/-- Whether a reader can go on has nothing to do with who looks after a start. -/
theorem isSome_resume_reading (r : Reading) (b : Bool) (s : Server) (h : waits r.task = true) :
    (resume ⟨0⟩ r.task ⟨hold b s, 0, [], []⟩).isSome = (resume ⟨0⟩ r.task ⟨s, 0, [], []⟩).isSome := by
  cases r with
  | next id => cases h
  | line id =>
    have hline (s : Server) :
        (resume ⟨0⟩ (Reading.line id).task ⟨s, 0, [], []⟩).isSome = (heard? id s).isSome :=
      Option.isSome_map
    rw [hline, hline, heard?, heard?, Option.isSome_map, Option.isSome_map]
    rfl
  | lock id =>
    have hlock (s : Server) : (resume ⟨0⟩ (Reading.lock id).task ⟨s, 0, [], []⟩).isSome =
        !(s.client.channel id).isReaping := by
      rw [Reading.task, reap_eq]
      exact isSome_resume_exclusive
    exact (hlock _).trans (hlock s).symm
  | exit id since => cases h

/-- Nobody waits like a caller that has yet to decide on a start. -/
theorem eq_waiting (h : x.task = waiting) : x = .waiting := by
  have hwaits : waits x.task = true := h ▸ rfl
  cases x with
  | waiting => rfl
  | reading r =>
    -- whether a reader can go on has nothing to do with `isHeld`, and for such a caller it has
    let s : Server := .new ⟨.empty, [], .scripted none, [], 0, none⟩ {}
    have hheld := isSome_resume_reading r true s hwaits
    have h : r.task = waiting := h
    rw [h] at hheld
    cases hheld
  | called => cases hwaits
  | trying => cases hwaits
  | clearing => cases hwaits
  | probing began p => cases hwaits
  | kept => cases hwaits

/-- A launch has been made in this turn. -/
def Turn.IsLaunch (t : Turn) : Prop :=
  ∃ n, t.before.step? t.who = some n ∧ n.state.around.launches ≠ t.before.state.around.launches

section Strides

variable {now : Instant} {e : Effects Server}

/-- What a move leaves as it is, whoever makes it. -/
theorem Stride.frame (h : Stride now next s x e y fresh) :
    e.state.configuration = s.configuration ∧ e.state.around.clock = s.around.clock := by
  cases h with
  | asks | stays => exact ⟨rfl, rfl⟩
  | decides _ hplan =>
    have hframe := (planned (s.time now) s).frame
    rw [hplan] at hframe
    exact ⟨hframe.1, congrArg Surroundings.clock hframe.2.1⟩
  | clears hs => exact ⟨hs.configuration, hs.clock⟩
  | launches _ _ hs => exact ⟨hs.configuration, hs.clock⟩
  | probes hs => exact ⟨hs.configuration, hs.clock⟩
  | comesUp hs => exact ⟨hs.configuration, hs.clock⟩
  | fails _ _ hs => exact ⟨hs.configuration, hs.clock⟩
  | reads hs =>
    obtain ⟨hconf, -, -, hclock, -⟩ := hs.frame
    exact ⟨hconf, hclock⟩

/-- Whoever launches the process was still to do so, and has done so. -/
theorem Stride.launch (h : Stride now next s x e y fresh) :
    e.state.around.launches = s.around.launches ∨
      (x.isDue = true ∧ (∃ began, x.began? = some began) ∧ ∀ z, y = some z → z.isDue = false) := by
  cases h with
  | asks | stays => exact .inl rfl
  | decides _ hplan =>
    have hframe := (planned (s.time now) s).frame
    rw [hplan] at hframe
    exact .inl (congrArg Surroundings.launches hframe.2.1)
  | clears hs => exact .inl hs.launches
  | launches hx hdue hs =>
    refine .inr ⟨hdue, ⟨_, hx⟩, fun z hz => ?_⟩
    exact Option.some.inj hz ▸ rfl
  | probes hs => exact .inl hs.launches
  | comesUp hs => exact .inl hs.launches
  | fails _ _ hs => exact .inl hs.launches
  | reads hs =>
    obtain ⟨-, -, hlaunches, -⟩ := hs.frame
    exact .inl hlaunches

/-- How the start that a caller looks after comes to be, goes on and ends. -/
theorem Stride.began (h : Stride now next s x e y fresh) {z : Station} (hz : y = some z) :
    (x ≠ .waiting ∧ z.began? = x.began?) ∨
      (x = .waiting ∧ z.began? = some (s.time now) ∧ (planStart (s.time now) s).1 = .tried) ∨
      ∃ o, z = .kept o := by
  cases h with
  | asks =>
    split at hz
    · exact .inr (.inr ⟨_, (Option.some.inj hz).symm⟩)
    · exact .inl ⟨nofun, by rw [← Option.some.inj hz]; rfl⟩
  | stays => exact .inr (.inr ⟨_, (Option.some.inj hz).symm⟩)
  | @decides plan s' _ hplan =>
    obtain rfl := Option.some.inj hz
    cases plan with
    | running => exact .inr (.inr ⟨_, rfl⟩)
    | refused f => exact .inr (.inr ⟨_, rfl⟩)
    | tried => exact .inr (.inl ⟨rfl, rfl, by rw [hplan]⟩)
  | clears => exact .inl ⟨nofun, by rw [← Option.some.inj hz]; rfl⟩
  | launches hx =>
    refine .inl ⟨?_, by rw [← Option.some.inj hz, hx]; rfl⟩
    rintro rfl
    cases hx
  | probes => exact .inl ⟨nofun, by rw [← Option.some.inj hz]; rfl⟩
  | comesUp => exact .inr (.inr ⟨_, (Option.some.inj hz).symm⟩)
  | fails => exact .inr (.inr ⟨_, (Option.some.inj hz).symm⟩)
  | reads =>
    obtain ⟨_, -, rfl⟩ := Option.map_eq_some_iff.mp hz
    exact .inl ⟨nofun, rfl⟩

theorem Stride.kept {o : Except Failure Unit} (h : Stride now next s (.kept o) e y fresh) :
    y = some (.kept o) := by
  cases h with
  | launches hx => cases hx
  | fails hx => cases hx
  | stays => rfl

theorem Stride.isDue (h : Stride now next s x e y fresh) {z : Station} (hz : y = some z)
    (hdue : z.isDue = true) : x.isDue = true := by
  cases h with
  | asks | decides | clears => rfl
  | launches _ hx => exact hx
  | stays | probes | comesUp | fails =>
    rw [← Option.some.inj hz] at hdue
    cases hdue
  | reads =>
    obtain ⟨_, -, rfl⟩ := Option.map_eq_some_iff.mp hz
    cases hdue

theorem Stride.newcomers (h : Stride now next s x e y fresh) {j : TaskId} {z : Station}
    (hz : (j, z) ∈ fresh) : next ≤ j ∧ j < e.next ∧ ∃ r, z = .reading r := by
  cases h with
  | launches =>
    cases List.mem_singleton.mp hz
    exact ⟨Nat.le_refl _, Nat.lt_succ_self _, _, rfl⟩
  | _ => cases hz

end Strides

section Log

/-- What the turns so far say of where the callers are: whoever has decided on a start looks after it or
has been told what came of it, and nobody launches the process twice. -/
structure Log (h : List Turn) (crew : Crew) (next : TaskId) : Prop where
  who : ∀ t ∈ h, t.who < next
  settled : ∀ t ∈ h, t.IsDecision → ∀ x, (t.who, x) ∈ crew → x.began? = some t.time ∨ ∃ o, x = .kept o
  once : ∀ t ∈ h, ∀ u ∈ h, t.IsDecision → u.IsDecision → t.who = u.who → t = u
  begun : ∀ i x began, (i, x) ∈ crew → x.began? = some began →
    ∃ t ∈ h, t.who = i ∧ t.IsStart ∧ t.time = began
  due : ∀ i x, (i, x) ∈ crew → x.isDue = true → ∀ t ∈ h, t.who = i → ¬ t.IsLaunch

theorem Crew.lookup_tasks (h : (crew.map (·.1)).Nodup) (hx : (i, x) ∈ crew) :
    crew.tasks.lookup i = some x.task := by
  obtain ⟨before, after, rfl⟩ := List.append_of_mem hx
  refine List.lookup_eq_some_iff.mpr ⟨tasks before, tasks after, by simp [tasks], fun p hp => ?_⟩
  obtain ⟨q, hq, rfl⟩ := List.mem_map.mp hp
  rw [List.map_append, List.map_cons] at h
  have hne := (List.nodup_append.mp h).2.2 q.1 (List.mem_map_of_mem hq) i List.mem_cons_self
  simpa using hne.symm

variable {m n : Machine Server} {e : Effects Server} {h : List Turn}

theorem Moved.isDecision (hs : Sound crew m.state m.next) (htasks : m.tasks = crew.tasks)
    (hm : Moved crew m i x e y fresh n) : (⟨i, m⟩ : Turn).IsDecision ↔ x = .waiting := by
  have hlookup : m.tasks.lookup i = some x.task := htasks ▸ Crew.lookup_tasks hs.distinct hm.mem
  constructor
  · intro hdecision
    exact eq_waiting (Option.some.inj (hlookup.symm.trans hdecision))
  · rintro rfl
    exact hlookup

theorem launches_of_isLaunch (hn : m.step? i = some n)
    (hlaunch : (⟨i, m⟩ : Turn).IsLaunch) : n.state.around.launches ≠ m.state.around.launches := by
  obtain ⟨n', hn', hlaunch⟩ := hlaunch
  cases hn.symm.trans hn'
  exact hlaunch

theorem Moved.log (hl : Log h crew m.next) (hs : Sound crew m.state m.next)
    (htasks : m.tasks = crew.tasks) (hm : Moved crew m i x e y fresh n) (hn : m.step? i = some n) :
    Log (⟨i, m⟩ :: h) (crew.settle i e.cancelled y fresh) n.next := by
  have hdecision := hm.isDecision hs htasks
  have hnext : m.next ≤ n.next := by
    rw [hm.next]
    cases hm.stride with
    | launches => exact Nat.le_succ _
    | _ => exact Nat.le_refl _
  -- a caller that has decided never waits to decide again
  have hundecided (t : Turn) (ht : t ∈ h) (hd : t.IsDecision) (hi : t.who = i) : x ≠ .waiting := by
    rintro rfl
    obtain hx | ⟨_, hx⟩ := hl.settled t ht hd .waiting (hi ▸ hm.mem) <;> cases hx
  constructor
  case who =>
    rintro t ht
    obtain rfl | ht := List.mem_cons.mp ht
    · exact Nat.lt_of_lt_of_le (hs.below i x hm.mem) hnext
    · exact Nat.lt_of_lt_of_le (hl.who t ht) hnext
  case settled =>
    rintro t ht hd z hz
    obtain ⟨hz, hne, -⟩ | ⟨hwho, hself⟩ | hz := Crew.mem_settle.mp hz
    · obtain rfl | ht := List.mem_cons.mp ht
      · exact absurd rfl hne
      · exact hl.settled t ht hd z hz
    · have hbegan := hm.stride.began hself
      obtain rfl | ht := List.mem_cons.mp ht
      · obtain ⟨hnot, -⟩ | ⟨-, hb, -⟩ | hkept := hbegan
        · exact absurd (hdecision.mp hd) hnot
        · exact .inl hb
        · exact .inr hkept
      · obtain ⟨-, hb⟩ | ⟨hwaiting, -⟩ | hkept := hbegan
        · obtain hx | ⟨o, rfl⟩ := hl.settled t ht hd x (hwho ▸ hm.mem)
          · exact .inl (hb.trans hx)
          · exact .inr ⟨o, Option.some.inj (hself.symm.trans hm.stride.kept)⟩
        · exact absurd hwaiting (hundecided t ht hd hwho)
        · exact .inr hkept
    · have hlt : t.who < m.next := by
        obtain rfl | ht := List.mem_cons.mp ht
        · exact hs.below i x hm.mem
        · exact hl.who t ht
      exact absurd hlt (Nat.not_lt.mpr (hm.stride.newcomers hz).1)
  case once =>
    intro t ht u hu hdt hdu hwho
    obtain rfl | ht := List.mem_cons.mp ht
    · obtain rfl | hu := List.mem_cons.mp hu
      · rfl
      · exact absurd (hdecision.mp hdt) (hundecided u hu hdu hwho.symm)
    · obtain rfl | hu := List.mem_cons.mp hu
      · exact absurd (hdecision.mp hdu) (hundecided t ht hdt hwho)
      · exact hl.once t ht u hu hdt hdu hwho
  case begun =>
    intro j z began hz hbegan
    obtain ⟨hz, -, -⟩ | ⟨rfl, hself⟩ | hz := Crew.mem_settle.mp hz
    · obtain ⟨t, ht, hstart⟩ := hl.begun j z began hz hbegan
      exact ⟨t, List.mem_cons_of_mem _ ht, hstart⟩
    · obtain ⟨-, hb⟩ | ⟨hwaiting, hb, hplan⟩ | ⟨o, rfl⟩ := hm.stride.began hself
      · obtain ⟨t, ht, hstart⟩ := hl.begun j x began hm.mem (hb.symm.trans hbegan)
        exact ⟨t, List.mem_cons_of_mem _ ht, hstart⟩
      · exact ⟨_, List.mem_cons_self, rfl, ⟨hdecision.mpr hwaiting, hplan⟩,
          Option.some.inj (hb.symm.trans hbegan)⟩
      · cases hbegan
    · obtain ⟨-, -, r, rfl⟩ := hm.stride.newcomers hz
      cases hbegan
  case due =>
    intro j z hz hdue t ht hwho
    obtain ⟨hz, hne, -⟩ | ⟨rfl, hself⟩ | hz := Crew.mem_settle.mp hz
    · obtain rfl | ht := List.mem_cons.mp ht
      · exact absurd hwho.symm hne
      · exact hl.due j z hz hdue t ht hwho
    · obtain rfl | ht := List.mem_cons.mp ht
      · intro hlaunch
        obtain hsame | ⟨-, -, hdone⟩ := hm.stride.launch
        · exact launches_of_isLaunch hn hlaunch (hm.stays.launches.trans hsame)
        · rw [hdone z hself] at hdue
          cases hdue
      · exact hl.due j x hm.mem (hm.stride.isDue hself hdue) t ht hwho
    · obtain ⟨-, -, r, rfl⟩ := hm.stride.newcomers hz
      cases hdue

end Log

/-- Nobody is dropped but readers. -/
theorem Moved.stays_on {m n : Machine Server} {e : Effects Server} (hm : Moved crew m i x e y fresh n)
    (hs : Sound crew m.state m.next) {j : TaskId} {z : Station} (hz : (j, z) ∈ crew)
    (hnot : ∀ r, z ≠ .reading r) : j ∉ e.cancelled := by
  intro hj
  obtain hnone | ⟨-, hsome⟩ := hm.stride.cancelled
  · rw [hnone] at hj
    cases hj
  · rw [hsome] at hj
    obtain ⟨r, hr⟩ := (hs.manned j (Option.mem_toList.mp hj)).2 z hz
    exact hnot r hr

section Memory

/-- A start came to nothing, and its caller keeps the failure. -/
def Fails (crew : Crew) (t : Turn) (f : Failure) : Prop := t.IsStart ∧ (t.who, .kept (.error f)) ∈ crew

/-- What is remembered of starts that came to nothing: the last one, and that the others began a window
before whatever start was decided on since. -/
structure Memory (window : Duration) (h : List Turn) (crew : Crew) (failed : Option (Instant × Failure))
    (now : Instant) : Prop where
  past : ∀ t ∈ h, t.time ≤ now
  before : ∀ i x began, (i, x) ∈ crew → x.began? = some began →
    ∀ t ∈ h, ∀ f, Fails crew t f → t.time.after window ≤ began
  remembered : ∀ t ∈ h, ∀ f, Fails crew t f → failed = some (t.time, f) ∨ t.time.after window ≤ now
  real : ∀ began f, failed = some (began, f) → ∃ t ∈ h, Fails crew t f ∧ t.time = began
  apart : ∀ t ∈ h, ∀ u ∈ h, ∀ f g, Fails crew t f → Fails crew u g →
    t = u ∨ t.time.after window ≤ u.time ∨ u.time.after window ≤ t.time

variable {window : Duration} {h h' : List Turn} {crew crew' fresh : Crew}
  {failed failed' : Option (Instant × Failure)} {now : Instant}

/-- The starts that came to nothing are the same, and what is forgotten of them has left the window. -/
theorem Memory.alike (hm : Memory window h crew failed now) (hpast : ∀ t ∈ h', t.time ≤ now)
    (hfails : ∀ t f, t ∈ h' ∧ Fails crew' t f ↔ t ∈ h ∧ Fails crew t f)
    (hbegan : ∀ i x began, (i, x) ∈ crew' → x.began? = some began →
      (∃ j y, (j, y) ∈ crew ∧ y.began? = some began) ∨
        (began = now ∧ ∀ t f, failed = some (t, f) → t.after window ≤ now))
    (hfailed : failed' = failed ∨ failed' = none ∧ ∀ t f, failed = some (t, f) → t.after window ≤ now) :
    Memory window h' crew' failed' now where
  past := hpast
  before i x began hx hb t ht f hf := by
    obtain ⟨ht, hf⟩ := (hfails t f).mp ⟨ht, hf⟩
    obtain ⟨j, y, hy, hyb⟩ | ⟨rfl, hforgets⟩ := hbegan i x began hx hb
    · exact hm.before j y began hy hyb t ht f hf
    · exact (hm.remembered t ht f hf).elim (hforgets t.time f) id
  remembered t ht f hf := by
    obtain ⟨ht, hf⟩ := (hfails t f).mp ⟨ht, hf⟩
    obtain hr | hr := hm.remembered t ht f hf
    · obtain rfl | ⟨-, hforgets⟩ := hfailed
      · exact .inl hr
      · exact .inr (hforgets t.time f hr)
    · exact .inr hr
  real began f hf := by
    obtain rfl | ⟨rfl, -⟩ := hfailed
    · obtain ⟨t, ht, hfails', hb⟩ := hm.real began f hf
      obtain ⟨ht, hfails'⟩ := (hfails t f).mpr ⟨ht, hfails'⟩
      exact ⟨t, ht, hfails', hb⟩
    · cases hf
  apart t ht u hu f g hf hg := by
    obtain ⟨ht, hf⟩ := (hfails t f).mp ⟨ht, hf⟩
    obtain ⟨hu, hg⟩ := (hfails u g).mp ⟨hu, hg⟩
    exact hm.apart t ht u hu f g hf hg

theorem Memory.later (hm : Memory window h crew failed now) {u : Instant} (hlater : now ≤ u) :
    Memory window h crew failed u where
  past t ht := Nat.le_trans (hm.past t ht) hlater
  before := hm.before
  remembered t ht f hf := (hm.remembered t ht f hf).imp_right fun h => Nat.le_trans h hlater
  real := hm.real
  apart := hm.apart

/-- The start that a caller looks after comes to nothing. -/
theorem Memory.fail (hm : Memory window h crew failed now) {t : Turn} {f : Failure} (ht : t ∈ h)
    (hpast : ∀ t ∈ h', t.time ≤ now) (hh : ∀ u ∈ h, u ∈ h')
    (hself : Fails crew' t f) (hx : (i, x) ∈ crew) (hxb : x.began? = some t.time)
    (hnew : ∀ u g, u ∈ h' → Fails crew' u g → (u = t ∧ g = f) ∨ u ∈ h ∧ Fails crew u g)
    (hnobody : ∀ i x, (i, x) ∈ crew' → x.began? = none) :
    Memory window h' crew' (some (t.time, f)) now where
  past := hpast
  before j y began hy hb := by
    rw [hnobody j y hy] at hb
    cases hb
  remembered u hu g hg := by
    obtain ⟨rfl, rfl⟩ | ⟨hu, hg⟩ := hnew u g hu hg
    · exact .inl rfl
    · exact .inr (Nat.le_trans (hm.before i x t.time hx hxb u hu g hg) (hm.past t ht))
  real began g heq := by
    cases heq
    exact ⟨t, hh t ht, hself, rfl⟩
  apart u hu v hv g g' hg hg' := by
    obtain ⟨rfl, rfl⟩ | ⟨hu, hg⟩ := hnew u g hu hg
    · obtain ⟨rfl, rfl⟩ | ⟨hv, hg'⟩ := hnew v g' hv hg'
      · exact .inl rfl
      · exact .inr (.inr (hm.before i x u.time hx hxb v hv g' hg'))
    · obtain ⟨rfl, rfl⟩ | ⟨hv, hg'⟩ := hnew v g' hv hg'
      · exact .inr (.inl (hm.before i x v.time hx hxb u hu g hg))
      · exact hm.apart u hu v hv g g' hg hg'

variable {m n : Machine Server} {e : Effects Server}

/-- A move makes a start come to nothing, or it makes nothing of that. -/
theorem Stride.outcome (h : Stride now next s x e y fresh) :
    (∃ began f, x.began? = some began ∧ y = some (.kept (.error f)) ∧
      e.state.starts.failed = some (began, f)) ∨
    (∀ f, y = some (.kept (.error f)) → x = .kept (.error f) ∨
      x = .waiting ∧ (planStart (s.time now) s).1 ≠ .tried) ∧
    (e.state.starts.failed = s.starts.failed ∨
      e.state.starts.failed = none ∧ Forgets (s.time now) s) := by
  cases h with
  | asks =>
    refine .inr ⟨fun f hf => ?_, .inl rfl⟩
    split at hf <;> cases hf
  | @stays o => exact .inr ⟨fun f hf => .inl (Option.some.inj hf), .inl rfl⟩
  | @decides plan s' hheld hplan =>
    have hplanned := planned (s.time now) s
    refine .inr ⟨fun f hf => .inr ⟨rfl, fun htried => ?_⟩, ?_⟩
    · obtain rfl : plan = .tried := by rw [← htried, hplan]
      cases hf
    · rw [hplan] at hplanned
      cases hplanned with
      | running | shut | remembered => exact .inl rfl
      | exhausted _ hforgets | restarts _ hforgets | starts _ _ hforgets => exact .inr ⟨rfl, hforgets⟩
  | clears hs => exact .inr ⟨nofun, .inl (congrArg StartHistory.failed hs.starts)⟩
  | launches _ _ hs => exact .inr ⟨nofun, .inl (congrArg StartHistory.failed hs.starts)⟩
  | probes hs => exact .inr ⟨nofun, .inl (congrArg StartHistory.failed hs.starts)⟩
  | comesUp hs =>
    have hstarts := congrArg StartHistory.failed hs.starts
    exact .inr ⟨nofun, .inl hstarts⟩
  | fails hx => exact .inl ⟨_, _, hx, rfl, rfl⟩
  | reads hs =>
    obtain ⟨-, hstarts, -⟩ := hs.frame
    refine .inr ⟨fun f hf => ?_, .inl (congrArg StartHistory.failed hstarts)⟩
    obtain ⟨_, -, heq⟩ := Option.map_eq_some_iff.mp hf
    cases heq

/-- The starts that came to nothing are the same after a move of a caller that none of them is of. -/
theorem Moved.fails_iff (hl : Log h crew m.next) (hs : Sound crew m.state m.next)
    (htasks : m.tasks = crew.tasks) (hm : Moved crew m i x e y fresh n)
    (hy : ∀ f, y = some (.kept (.error f)) → x = .kept (.error f) ∨
      x = .waiting ∧ (planStart (m.state.time m.now) m.state).1 ≠ .tried) (t : Turn) (f : Failure) :
    t ∈ ⟨i, m⟩ :: h ∧ Fails (crew.settle i e.cancelled y fresh) t f ↔ t ∈ h ∧ Fails crew t f := by
  have hdecision := hm.isDecision hs htasks
  constructor
  · rintro ⟨ht, hstart, hkept⟩
    obtain ⟨hkept, hne, -⟩ | ⟨hwho, hself⟩ | hnew := Crew.mem_settle.mp hkept
    · obtain rfl | ht := List.mem_cons.mp ht
      · exact absurd rfl hne
      · exact ⟨ht, hstart, hkept⟩
    · obtain rfl | ht := List.mem_cons.mp ht
      · obtain rfl | ⟨-, hplan⟩ := hy f hself
        · cases hdecision.mp hstart.1
        · exact absurd hstart.2 hplan
      · obtain rfl | ⟨rfl, -⟩ := hy f hself
        · exact ⟨ht, hstart, hwho ▸ hm.mem⟩
        · obtain hx | ⟨_, hx⟩ := hl.settled t ht hstart.1 .waiting (hwho ▸ hm.mem) <;> cases hx
    · obtain ⟨-, -, r, hr⟩ := hm.stride.newcomers hnew
      cases hr
  · rintro ⟨ht, hstart, hkept⟩
    refine ⟨List.mem_cons_of_mem _ ht, hstart, Crew.mem_settle.mpr ?_⟩
    by_cases hwho : t.who = i
    · obtain rfl := hs.unique (hwho ▸ hkept) hm.mem
      exact .inr (.inl ⟨hwho, hm.stride.kept⟩)
    · exact .inl ⟨hkept, hwho, hm.stays_on hs hkept nofun⟩

theorem Memory.forgets (hm : Memory s.configuration.restartWindow h crew s.starts.failed now)
    (hforgets : Forgets now s) (t : Instant) (f : Failure) (hf : s.starts.failed = some (t, f)) :
    t.after s.configuration.restartWindow ≤ now := by
  obtain ⟨u, hu, -, rfl⟩ := hm.real t f hf
  exact (since_le_iff (hm.past u hu)).mp (hforgets u.time f hf)

theorem Moved.memory (hm : Moved crew m i x e y fresh n) (hl : Log h crew m.next)
    (hs : Sound crew m.state m.next) (htasks : m.tasks = crew.tasks)
    (hmem : Memory m.state.configuration.restartWindow h crew m.state.starts.failed
      (m.state.time m.now)) :
    Memory m.state.configuration.restartWindow (⟨i, m⟩ :: h) (crew.settle i e.cancelled y fresh)
      n.state.starts.failed (m.state.time m.now) := by
  have hpast : ∀ t ∈ (⟨i, m⟩ : Turn) :: h, t.time ≤ m.state.time m.now := by
    intro t ht
    obtain rfl | ht := List.mem_cons.mp ht
    · exact Nat.le_refl _
    · exact hmem.past t ht
  rw [hm.stays.starts]
  -- either the start of this caller comes to nothing, or the starts that did are those of before
  obtain ⟨began, f, hx, hy, hf⟩ | ⟨hy, hf⟩ := hm.stride.outcome
  · obtain ⟨t, ht, hwho, hstart, rfl⟩ := hl.begun i x began hm.mem hx
    rw [hf]
    subst hy
    refine hmem.fail ht hpast (fun u hu => List.mem_cons_of_mem _ hu)
      ⟨hstart, Crew.mem_settle.mpr (.inr (.inl ⟨hwho, rfl⟩))⟩ hm.mem hx ?_ ?_
    · rintro u g hu ⟨hstart', hkept⟩
      obtain ⟨hkept, hne, -⟩ | ⟨hwho', hself⟩ | hnew := Crew.mem_settle.mp hkept
      · obtain rfl | hu := List.mem_cons.mp hu
        · exact absurd rfl hne
        · exact .inr ⟨hu, hstart', hkept⟩
      · cases hself
        obtain rfl | hu := List.mem_cons.mp hu
        · obtain rfl := (hm.isDecision hs htasks).mp hstart'.1
          cases hx
        · exact .inl ⟨hl.once u hu t ht hstart'.1 hstart.1 (hwho'.trans hwho.symm), rfl⟩
      · obtain ⟨-, -, r, hr⟩ := hm.stride.newcomers hnew
        cases hr
    · intro j z hz
      obtain ⟨hz, hne, -⟩ | ⟨-, hself⟩ | hz := Crew.mem_settle.mp hz
      · refine Option.not_isSome_iff_eq_none.mp fun hholds => hne ?_
        exact hs.alone j z i x hz hm.mem hholds (hx ▸ rfl)
      · cases hself
        rfl
      · obtain ⟨-, -, r, rfl⟩ := hm.stride.newcomers hz
        rfl
  · refine hmem.alike hpast (hm.fails_iff hl hs htasks hy) (fun j z b hz hb => ?_)
      (hf.imp_right fun hf => ⟨hf.1, hmem.forgets hf.2⟩)
    obtain ⟨hz, -, -⟩ | ⟨-, hself⟩ | hz := Crew.mem_settle.mp hz
    · exact .inl ⟨j, z, hz, hb⟩
    · obtain ⟨-, hbx⟩ | ⟨-, hbx, hplan⟩ | ⟨o, rfl⟩ := hm.stride.began hself
      · exact .inl ⟨i, x, hm.mem, hbx.symm.trans hb⟩
      · have hplanned := planned (m.state.time m.now) m.state
        rw [hplan] at hplanned
        exact .inr ⟨Option.some.inj (hb.symm.trans hbx), hmem.forgets hplanned.forgets⟩
      · cases hb
    · obtain ⟨-, -, r, rfl⟩ := hm.stride.newcomers hz
      cases hb

end Memory

section Restarts

variable {h : List Turn} {m n : Machine Server} {e : Effects Server}

theorem Stride.restarts {now : Instant} (h : Stride now next s x e y fresh) (hx : x ≠ .waiting) :
    e.state.starts.restarts = s.starts.restarts := by
  cases h with
  | asks | stays => rfl
  | decides => exact absurd rfl hx
  | clears hs => exact congrArg StartHistory.restarts hs.starts
  | launches _ _ hs => exact congrArg StartHistory.restarts hs.starts
  | probes hs => exact congrArg StartHistory.restarts hs.starts
  | comesUp hs =>
    have hstarts := congrArg StartHistory.restarts hs.starts
    exact hstarts
  | fails _ _ hs =>
    have hstarts := congrArg StartHistory.restarts hs.starts
    exact hstarts
  | reads hs =>
    obtain ⟨-, hstarts, -⟩ := hs.frame
    exact congrArg StartHistory.restarts hstarts

theorem Moved.counted (hm : Moved crew m i x e y fresh n) (hs : Sound crew m.state m.next)
    (htasks : m.tasks = crew.tasks)
    (hc : Counted m.state.configuration.restartWindow m.state.configuration.maxRestarts h
      m.state.starts.restarts (m.state.time m.now)) :
    Counted m.state.configuration.restartWindow m.state.configuration.maxRestarts (⟨i, m⟩ :: h)
      n.state.starts.restarts (m.state.time m.now) := by
  have hdecision := hm.isDecision hs htasks
  rw [hm.stays.starts]
  by_cases hx : x = .waiting
  · subst hx
    have hplanned := planned (m.state.time m.now) m.state
    have hstride := hm.stride
    cases hstride with
    | launches hx => cases hx
    | fails hx => cases hx
    | @decides plan s' hheld hplan =>
      have hstart (hrestart : (⟨i, m⟩ : Turn).IsRestart) : plan = .tried :=
        (congrArg Prod.fst hplan).symm.trans hrestart.1.2
      rw [hplan] at hplanned
      cases hplanned with
      | running => exact hc.other fun hrestart => nomatch hstart hrestart
      | shut => exact hc.other fun hrestart => nomatch hstart hrestart
      | remembered => exact hc.other fun hrestart => nomatch hstart hrestart
      | exhausted => exact hc.forget.other fun hrestart => nomatch hstart hrestart
      | starts _ hcrashed => exact hc.other fun hrestart => hcrashed hrestart.2
      | restarts hcrashed _ hfew =>
        exact hc.restart ⟨⟨hdecision.mpr rfl, congrArg Prod.fst hplan⟩, hcrashed⟩ rfl hfew
  · rw [hm.stride.restarts hx]
    exact hc.other fun hrestart => hx (hdecision.mp hrestart.1.1)

end Restarts

end LanguageServer.Server.Guard
