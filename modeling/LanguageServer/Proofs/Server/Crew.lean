import Mathlib.Data.List.Nodup
import LanguageServer.Proofs.Server.CallerMoves

/-! Everyone in a machine of callers and readers: who looks after a start, who keeps others from
starting the client, and who reads. -/
namespace LanguageServer.Server.Guard

open Analyzer Machine

/-- The crew after a move: those that were not dropped, the one that moved unless it has ended, and the
new ones. -/
def Crew.settle (crew : Crew) (i : TaskId) (c : List TaskId) (y : Option Station) (fresh : Crew) :
    Crew :=
  (crew.filter (·.1 ≠ i)).filter (fun p => !c.contains p.1) ++ (y.toList.map fun x => (i, x)) ++ fresh

namespace Crew

variable {crew fresh : Crew} {i j : TaskId} {x : Station} {c : List TaskId} {y : Option Station}

theorem mem_settle : (j, x) ∈ crew.settle i c y fresh ↔
    ((j, x) ∈ crew ∧ j ≠ i ∧ j ∉ c) ∨ (j = i ∧ y = some x) ∨ (j, x) ∈ fresh := by
  simp only [settle, List.mem_append, List.mem_filter, or_assoc, and_assoc, decide_eq_true_eq,
    Bool.not_eq_true', List.contains_eq_mem, decide_eq_false_iff_not, List.mem_map, Prod.mk.injEq,
    Option.mem_toList]
  constructor
  · rintro (h | ⟨x', hx', rfl, rfl⟩ | h)
    · exact .inl h
    · exact .inr (.inl ⟨rfl, hx'⟩)
    · exact .inr (.inr h)
  · rintro (h | ⟨rfl, hx⟩ | h)
    · exact .inl h
    · exact .inr (.inl ⟨x, hx, rfl, rfl⟩)
    · exact .inr (.inr h)

theorem mem_tasks {t : Job Unit} : (j, t) ∈ crew.tasks ↔ ∃ x, (j, x) ∈ crew ∧ x.task = t := by
  simp only [tasks, List.mem_map, Prod.mk.injEq, Prod.exists]
  constructor
  · rintro ⟨_, x, hx, rfl, rfl⟩
    exact ⟨x, hx, rfl⟩
  · rintro ⟨x, hx, rfl⟩
    exact ⟨j, x, hx, rfl, rfl⟩

end Crew

theorem isDone_task (x : Station) : isDone x.task = false := by
  cases x with
  | reading r => cases r <;> rfl
  | _ => rfl

theorem release_reading (r : Reading) (s : Server) : release r.task s = mark? r.held? false s := by
  cases r <;> rfl

theorem stays_release (r : Reading) (s : Server) : Stays s (release r.task s) ∧
    ∀ id, r.held? = some id → ((release r.task s).client.channel id).isReaping = false := by
  rw [release_reading]
  cases hheld : r.held? with
  | none => exact ⟨.refl s, nofun⟩
  | some id =>
    have hmark (j : ChannelId) := isReaping_mark s id j false
    refine ⟨⟨rfl, rfl, rfl, rfl, rfl, rfl, fun h => h, fun j hj => ?_⟩, fun j hj => ?_⟩
    · have hj := (hmark j).symm.trans hj
      split at hj
      · cases hj
      · exact hj
    · cases hj
      exact (hmark id).trans (if_pos rfl)

/-- What is left of readers that are dropped. -/
theorem stays_dropped (dropped : Crew) (s : Server)
    (h : ∀ p ∈ dropped, ∃ r, p.2 = .reading r) :
    Stays s (dropped.tasks.foldl (fun s t => release t.2 s) s) ∧
      ∀ i r id, (i, .reading r) ∈ dropped → r.held? = some id →
        ((dropped.tasks.foldl (fun s t => release t.2 s) s).client.channel id).isReaping = false := by
  induction dropped generalizing s with
  | nil => exact ⟨.refl s, nofun⟩
  | cons p rest ih =>
    obtain ⟨k, x⟩ := p
    obtain ⟨r, rfl⟩ := h (k, x) List.mem_cons_self
    obtain ⟨hp, hheld⟩ := stays_release r s
    obtain ⟨hrest, hfree⟩ := ih (release r.task s) fun q hq => h q (List.mem_cons_of_mem _ hq)
    refine ⟨hp.trans hrest, fun i r' id hmem hid => ?_⟩
    obtain heq | hmem := List.mem_cons.mp hmem
    · cases heq
      refine Bool.eq_false_iff.mpr fun hreaping => ?_
      have hreaping := hrest.client.isReaping id hreaping
      rw [hheld id hid] at hreaping
      cases hreaping
    · exact hfree i r' id hmem hid

/-- The machine after a move. -/
theorem settle_tasks {m : Machine Server} {crew fresh : Crew} {i : TaskId} {e : Effects Server}
    {y : Option Station} (htasks : m.tasks = crew.tasks) (hfresh : e.spawned = fresh.tasks)
    (hi : i ∉ e.cancelled)
    (hc : ∀ j ∈ e.cancelled, ∀ x, (j, x) ∈ crew → ∃ r, x = .reading r) : ∃ s',
      m.settle i (e, Station.rest y) =
        ⟨s', m.now, (crew.settle i e.cancelled y fresh).tasks, e.next⟩ ∧
      Stays e.state s' ∧ (e.cancelled = [] → s' = e.state) ∧
      ∀ j r id, (j, .reading r) ∈ crew → j ∈ e.cancelled → r.held? = some id →
        (s'.client.channel id).isReaping = false := by
  let dropped : Crew := (crew.filter (·.1 ≠ i)).filter fun p => e.cancelled.contains p.1
  have hdropped : ((m.tasks.filter (·.1 ≠ i)).filter fun t => e.cancelled.contains t.1) =
      dropped.tasks := by
    rw [htasks, Crew.tasks, List.filter_map, List.filter_map]
    rfl
  have hothers : ((m.tasks.filter (·.1 ≠ i)).filter fun t => !e.cancelled.contains t.1) =
      Crew.tasks ((crew.filter (·.1 ≠ i)).filter fun p => !e.cancelled.contains p.1) := by
    rw [htasks, Crew.tasks, List.filter_map, List.filter_map]
    rfl
  have hmem (p : TaskId × Station) (hp : p ∈ dropped) : p ∈ crew ∧ p.1 ∈ e.cancelled := by
    obtain ⟨hp, hcancelled⟩ := List.mem_filter.mp hp
    exact ⟨(List.mem_filter.mp hp).1, by simpa using hcancelled⟩
  -- those that are dropped are readers, and what a reader holds is let go
  obtain ⟨hstays, hfree⟩ := stays_dropped dropped e.state fun p hp =>
    hc p.1 (hmem p hp).2 p.2 (hmem p hp).1
  refine ⟨_, ?_, hstays, fun hnone => ?_, fun j r id hj hjc hid => hfree j r id ?_ hid⟩
  · have hself : (if isDone (Station.rest y) = true ∨ e.cancelled.contains i = true then []
        else [(i, Station.rest y)]) = Crew.tasks (y.toList.map fun x => (i, x)) := by
      cases y with
      | none => rfl
      | some x => simp [Station.rest, isDone_task, hi, Crew.tasks]
    simp only [Machine.settle, List.partition_eq_filter_filter, Function.comp_def, hself, hfresh,
      hdropped, hothers, Crew.settle, Crew.tasks, List.map_append]
  · have hempty : dropped = [] := by simp [dropped, hnone]
    rw [hempty]
    rfl
  · have hji : j ≠ i := fun h => hi (h ▸ hjc)
    exact List.mem_filter.mpr ⟨List.mem_filter.mpr ⟨hj, by simpa using hji⟩, by simpa using hjc⟩

namespace Crew

theorem distinct_settle {crew fresh : Crew} {next : TaskId} {i : TaskId} {c : List TaskId}
    {y : Option Station} (h : (crew.map (·.1)).Nodup) (hbelow : ∀ j x, (j, x) ∈ crew → j < next)
    (hi : i < next) (hfresh : (fresh.map (·.1)).Nodup) (hnew : ∀ p ∈ fresh, next ≤ p.1) :
    ((crew.settle i c y fresh).map (·.1)).Nodup := by
  have hself : ∀ j ∈ (y.toList.map fun x => (i, x)).map (·.1), j = i := by
    cases y <;> simp
  have hothers : ∀ j ∈ ((crew.filter (·.1 ≠ i)).filter fun p => !c.contains p.1).map (·.1),
      j ≠ i ∧ j < next := by
    intro j hj
    obtain ⟨p, hp, rfl⟩ := List.mem_map.mp hj
    obtain ⟨hp, hne⟩ := List.mem_filter.mp (List.mem_filter.mp hp).1
    exact ⟨by simpa using hne, hbelow p.1 p.2 hp⟩
  rw [settle, List.map_append, List.map_append]
  refine List.nodup_append.mpr ⟨List.nodup_append.mpr ⟨?_, ?_, ?_⟩, hfresh, ?_⟩
  · exact h.sublist ((List.filter_sublist.trans List.filter_sublist).map _)
  · cases y <;> simp
  · intro j hj k hk
    exact hself k hk ▸ (hothers j hj).1
  · intro j hj k hk
    obtain ⟨p, hp, rfl⟩ := List.mem_map.mp hk
    refine Nat.ne_of_lt (Nat.lt_of_lt_of_le ?_ (hnew p hp))
    obtain hj | hj := List.mem_append.mp hj
    · exact (hothers j hj).2
    · exact hself j hj ▸ hi

end Crew

variable {crew fresh : Crew} {s s' : Server} {next i : TaskId} {x : Station} {y : Option Station}

/-- One caller at most looks after a start, and nobody but it keeps others from starting the client. -/
structure Watch (crew : Crew) (s : Server) : Prop where
  held : ∀ i x, (i, x) ∈ crew → x.began?.isSome = true → s.starts.isHeld = true
  alone : ∀ i x j y, (i, x) ∈ crew → (j, y) ∈ crew →
    x.began?.isSome = true → y.began?.isSome = true → i = j
  changing : s.client.isChanging = true → ∃ i x, (i, x) ∈ crew ∧ x.isChanging = true
  down : ∀ i began, (i, .trying began) ∈ crew → s.client.phase ≠ .running

/-- Nobody reads but the reader that the client knows, and nobody but it waits for the end of a
process. -/
structure Reads (crew : Crew) (s : Server) (next : TaskId) : Prop where
  distinct : (crew.map (·.1)).Nodup
  below : ∀ i x, (i, x) ∈ crew → i < next
  cleared : ∀ i began old, (i, .clearing began old) ∈ crew → s.client.reader = none
  readers : ∀ i r, (i, .reading r) ∈ crew → s.client.reader = some i
  manned : ∀ i, s.client.reader = some i → i < next ∧ ∀ x, (i, x) ∈ crew → ∃ r, x = .reading r
  reaping : ∀ id, (s.client.channel id).isReaping = true →
    ∃ i r, (i, .reading r) ∈ crew ∧ r.held? = some id

structure Sound (crew : Crew) (s : Server) (next : TaskId) : Prop extends Watch crew s, Reads crew s next

theorem Reads.unique (h : Reads crew s next) {z : Station} (hx : (i, x) ∈ crew)
    (hz : (i, z) ∈ crew) : x = z := by
  have hdistinct := List.inj_on_of_nodup_map h.distinct hx hz rfl
  cases hdistinct
  rfl

/-- One caller goes on, and nothing becomes of the readers. -/
theorem Reads.same (h : Reads crew s next) (hi : (i, x) ∈ crew) (hx : ∀ r, x ≠ .reading r)
    (hy : ∀ z, y = some z → (∀ r, z ≠ .reading r) ∧ ∀ began old, z ≠ .clearing began old)
    (hreader : s'.client.reader = s.client.reader)
    (hreaping : ∀ id, (s'.client.channel id).isReaping = true → (s.client.channel id).isReaping = true) :
    Reads (crew.settle i [] y []) s' next where
  distinct := Crew.distinct_settle h.distinct h.below (h.below i x hi) List.nodup_nil nofun
  below j z hz := by
    obtain ⟨hz, -, -⟩ | ⟨rfl, -⟩ | hz := Crew.mem_settle.mp hz
    · exact h.below j z hz
    · exact h.below j x hi
    · cases hz
  cleared j began old hz := by
    obtain ⟨hz, -, -⟩ | ⟨rfl, hself⟩ | hz := Crew.mem_settle.mp hz
    · exact hreader.trans (h.cleared j began old hz)
    · exact absurd rfl ((hy _ hself).2 began old)
    · cases hz
  readers j r hz := by
    obtain ⟨hz, -, -⟩ | ⟨rfl, hself⟩ | hz := Crew.mem_settle.mp hz
    · exact hreader.trans (h.readers j r hz)
    · exact absurd rfl ((hy _ hself).1 r)
    · cases hz
  manned j hj := by
    obtain ⟨hlt, hreading⟩ := h.manned j (hreader.symm.trans hj)
    refine ⟨hlt, fun z hz => ?_⟩
    obtain ⟨hz, -, -⟩ | ⟨rfl, -⟩ | hz := Crew.mem_settle.mp hz
    · exact hreading z hz
    · obtain ⟨r, hr⟩ := hreading x hi
      exact absurd hr (hx r)
    · cases hz
  reaping id hid := by
    obtain ⟨j, r, hj, hr⟩ := h.reaping id (hreaping id hid)
    have hji : j ≠ i := by
      rintro rfl
      exact hx r (h.unique hi hj)
    exact ⟨j, r, Crew.mem_settle.mpr (.inl ⟨hj, hji, List.not_mem_nil⟩), hr⟩

/-- The readers that a start finds are its reader, which it drops. -/
theorem Reads.not_reading (h : Reads crew s next) {j : TaskId} {r : Reading}
    (hj : (j, .reading r) ∈ crew) : j ∈ s.client.reader.toList := by
  rw [h.readers j r hj]
  exact List.mem_singleton.mpr rfl

/-- One caller goes on and drops the reader. -/
theorem Reads.drop (h : Reads crew s next) (hi : (i, x) ∈ crew)
    (hy : ∀ z, y = some z → ∀ r, z ≠ .reading r) (hreader : s'.client.reader = none) (hreaping : ∀ id, (s'.client.channel id).isReaping = false) :
    Reads (crew.settle i s.client.reader.toList y []) s' next where
  distinct := Crew.distinct_settle h.distinct h.below (h.below i x hi) List.nodup_nil nofun
  below j z hz := by
    obtain ⟨hz, -, -⟩ | ⟨rfl, -⟩ | hz := Crew.mem_settle.mp hz
    · exact h.below j z hz
    · exact h.below j x hi
    · cases hz
  cleared j began old hz := hreader
  readers j r hz := by
    obtain ⟨hz, -, hkept⟩ | ⟨rfl, hself⟩ | hz := Crew.mem_settle.mp hz
    · exact absurd (h.not_reading hz) hkept
    · exact absurd rfl (hy _ hself r)
    · cases hz
  manned j hj := by
    rw [hreader] at hj
    cases hj
  reaping id hid := by
    rw [hreaping id] at hid
    cases hid

/-- One caller goes on, drops the reader and sends out another. -/
theorem Reads.send (h : Reads crew s next) (hi : (i, x) ∈ crew) {z : Station} {r : Reading}
    (hz : ∀ r, z ≠ .reading r) (hclearing : ∀ j began old, (j, .clearing began old) ∈
      crew.settle i s.client.reader.toList (some z) [(next, .reading r)] → False)
    (hreader : s'.client.reader = some next) (hreaping : ∀ id, (s'.client.channel id).isReaping = false) :
    Reads (crew.settle i s.client.reader.toList (some z) [(next, .reading r)]) s' (next + 1) where
  distinct := Crew.distinct_settle h.distinct h.below (h.below i x hi) (List.nodup_singleton _)
    fun p hp => List.mem_singleton.mp hp ▸ Nat.le_refl next
  below j w hw := by
    obtain ⟨hw, -, -⟩ | ⟨rfl, -⟩ | hw := Crew.mem_settle.mp hw
    · exact Nat.lt_succ_of_lt (h.below j w hw)
    · exact Nat.lt_succ_of_lt (h.below j x hi)
    · cases List.mem_singleton.mp hw
      exact Nat.lt_succ_self next
  cleared j began old hw := (hclearing j began old hw).elim
  readers j q hw := by
    obtain ⟨hw, -, hkept⟩ | ⟨rfl, hself⟩ | hw := Crew.mem_settle.mp hw
    · exact absurd (h.not_reading hw) hkept
    · exact absurd (Option.some.inj hself) (hz q)
    · cases List.mem_singleton.mp hw
      exact hreader
  manned j hj := by
    obtain rfl := Option.some.inj (hreader.symm.trans hj)
    refine ⟨Nat.lt_succ_self next, fun w hw => ?_⟩
    obtain ⟨hw, -, -⟩ | ⟨rfl, -⟩ | hw := Crew.mem_settle.mp hw
    · exact absurd (h.below next w hw) (Nat.lt_irrefl next)
    · exact absurd (h.below next x hi) (Nat.lt_irrefl next)
    · cases List.mem_singleton.mp hw
      exact ⟨r, rfl⟩
  reaping id hid := by
    rw [hreaping id] at hid
    cases hid

theorem isReaping_mark? {o : Option ChannelId} {b : Bool} {id : ChannelId} :
    ((mark? o b s).client.channel id).isReaping =
      if o = some id then b else (s.client.channel id).isReaping := by
  cases o with
  | none => rfl
  | some j =>
    refine (isReaping_mark s j id b).trans ?_
    simp only [Option.some.injEq, eq_comm]

/-- What stays as it is but for who waits for the end of a process. -/
theorem Stays.frame {o o' : Option ChannelId} {b b' : Bool} (h : Stays (mark? o b (mark? o' b' s)) s') :
    s'.configuration = s.configuration ∧ s'.starts = s.starts ∧
      s'.around.launches = s.around.launches ∧ s'.around.clock = s.around.clock ∧
      s'.client.isChanging = s.client.isChanging ∧ s'.client.reader = s.client.reader ∧
      (s'.client.phase = .running → s.client.phase = .running) := by
  obtain ⟨hconf, hstarts, hlaunches, hclock, hchanging, hreader, hphase, -⟩ := h
  rw [hconf, hstarts, hlaunches, hclock, hchanging, hreader]
  cases o <;> cases o' <;> exact ⟨rfl, rfl, rfl, rfl, rfl, rfl, hphase⟩

theorem Reads.read (h : Reads crew s next) {r : Reading} {q : Option Reading}
    (hi : (i, .reading r) ∈ crew)
    (hs : Stays (mark? (q.bind Reading.held?) true (mark? r.held? false s)) s') :
    Reads (crew.settle i [] (q.map .reading) []) s' next where
  distinct := Crew.distinct_settle h.distinct h.below (h.below i _ hi) List.nodup_nil nofun
  below j z hz := by
    obtain ⟨hz, -, -⟩ | ⟨rfl, -⟩ | hz := Crew.mem_settle.mp hz
    · exact h.below j z hz
    · exact h.below j _ hi
    · cases hz
  cleared j began old hz := by
    obtain ⟨hz, -, -⟩ | ⟨rfl, hself⟩ | hz := Crew.mem_settle.mp hz
    · -- a caller that clears has dropped the reader, so that there is none to go on
      cases (h.cleared j began old hz).symm.trans (h.readers i r hi)
    · obtain ⟨_, -, hreading⟩ := Option.map_eq_some_iff.mp hself
      cases hreading
    · cases hz
  readers j p hz := by
    obtain ⟨-, -, -, -, -, hreader, -⟩ := hs.frame
    obtain ⟨hz, -, -⟩ | ⟨rfl, -⟩ | hz := Crew.mem_settle.mp hz
    · exact hreader.trans (h.readers j p hz)
    · exact hreader.trans (h.readers j r hi)
    · cases hz
  manned j hj := by
    obtain ⟨-, -, -, -, -, hreader, -⟩ := hs.frame
    obtain ⟨hlt, hreading⟩ := h.manned j (hreader.symm.trans hj)
    refine ⟨hlt, fun z hz => ?_⟩
    obtain ⟨hz, -, -⟩ | ⟨rfl, hself⟩ | hz := Crew.mem_settle.mp hz
    · exact hreading z hz
    · obtain ⟨p, -, hp⟩ := Option.map_eq_some_iff.mp hself
      exact ⟨p, hp.symm⟩
    · cases hz
  reaping id hid := by
    have hid := hs.client.isReaping id hid
    rw [isReaping_mark?, isReaping_mark?] at hid
    split at hid
    · next hq =>
      obtain ⟨p, hp, hheld⟩ := Option.bind_eq_some_iff.mp hq
      exact ⟨i, p, Crew.mem_settle.mpr (.inr (.inl ⟨rfl, by rw [hp, Option.map_some]⟩)), hheld⟩
    · split at hid
      · cases hid
      · next hr =>
        obtain ⟨j, p, hj, hheld⟩ := h.reaping id hid
        obtain rfl := Option.some.inj ((h.readers i r hi).symm.trans (h.readers j p hj))
        cases h.unique hi hj
        exact absurd hheld hr

theorem nobody_new (j : TaskId) (z : Station) (h : (j, z) ∈ ([] : Crew)) : z.began? = none := by
  cases h

theorem Station.isSome_of_isChanging (h : x.isChanging = true) : x.began?.isSome = true := by
  cases x <;> first | rfl | cases h

/-- Whoever does not look after a start goes on, and still does not. -/
theorem Watch.idle (h : Sound crew s next) (hi : (i, x) ∈ crew) (hx : x.began? = none)
    (hy : ∀ z, y = some z → z.began? = none) (hstarts : s'.starts = s.starts)
    (hchanging : s'.client.isChanging = s.client.isChanging)
    (hphase : s'.client.phase = .running → s.client.phase = .running) :
    Watch (crew.settle i [] y []) s' := by
  have hback (j : TaskId) (z : Station) (hz : (j, z) ∈ crew.settle i [] y [])
      (hholds : z.began?.isSome = true) : (j, z) ∈ crew := by
    obtain ⟨hz, -, -⟩ | ⟨rfl, hself⟩ | hz := Crew.mem_settle.mp hz
    · exact hz
    · rw [hy z hself] at hholds
      cases hholds
    · cases hz
  refine ⟨fun j z hz hholds => ?_, fun j z k w hz hw hholds hholds' => ?_, fun hchange => ?_,
    fun j began hz => ?_⟩
  · exact congrArg StartHistory.isHeld hstarts ▸ h.held j z (hback j z hz hholds) hholds
  · exact h.alone j z k w (hback j z hz hholds) (hback k w hw hholds') hholds hholds'
  · obtain ⟨j, z, hz, hinside⟩ := h.changing (hchanging ▸ hchange)
    refine ⟨j, z, Crew.mem_settle.mpr (.inl ⟨hz, ?_, List.not_mem_nil⟩), hinside⟩
    rintro rfl
    have hholds := Station.isSome_of_isChanging hinside
    rw [h.unique hz hi, hx] at hholds
    cases hholds
  · exact fun hup => h.down j began (hback j _ hz rfl) (hphase hup)

/-- Nobody but one caller looks after a start. -/
theorem Watch.of_only (honly : ∀ j z, (j, z) ∈ crew → z.began?.isSome = true → j = i ∧ y = some z)
    (hheld : ∀ z, y = some z → z.began?.isSome = true → s.starts.isHeld = true)
    (hchanging : s.client.isChanging = true → ∃ z, (i, z) ∈ crew ∧ z.isChanging = true)
    (hdown : ∀ began, y = some (.trying began) → s.client.phase ≠ .running) : Watch crew s where
  held j z hz hholds := hheld z (honly j z hz hholds).2 hholds
  alone j z k w hz hw hholds hholds' :=
    (honly j z hz hholds).1.trans (honly k w hw hholds').1.symm
  changing hchange := ⟨i, hchanging hchange⟩
  down j began hz := hdown began (honly j _ hz rfl).2

/-- After a move of the one who looks after a start, nobody else does. -/
theorem Watch.only (h : Watch crew s) (hi : (i, x) ∈ crew) (hx : x.began?.isSome = true)
    (hfresh : ∀ j z, (j, z) ∈ fresh → z.began? = none) {c : List TaskId} {j : TaskId} {z : Station}
    (hz : (j, z) ∈ crew.settle i c y fresh) (hholds : z.began?.isSome = true) : j = i ∧ y = some z := by
  obtain ⟨hz, hne, -⟩ | hself | hz := Crew.mem_settle.mp hz
  · exact absurd (h.alone j z i x hz hi hholds hx) hne
  · exact hself
  · rw [hfresh j z hz] at hholds
    cases hholds

/-- Where a decision on a start leaves the caller, it is only with a start to be tried that it goes on to
look after one. -/
theorem began?_decided {now : Instant} {plan : StartPlan} :
    (Station.decided now plan).began?.isSome = true ↔ plan = .tried := by
  cases plan <;> simp [Station.decided, Station.began?]

/-- The machine after a move of one of the crew. -/
structure Moved (crew : Crew) (m : Machine Server) (i : TaskId) (x : Station) (e : Effects Server)
    (y : Option Station) (fresh : Crew) (n : Machine Server) : Prop where
  mem : (i, x) ∈ crew
  stride : Stride m.now m.next m.state x e y fresh
  tasks : n.tasks = (crew.settle i e.cancelled y fresh).tasks
  now : n.now = m.now
  next : n.next = e.next
  stays : Stays e.state n.state
  same : e.cancelled = [] → n.state = e.state
  free : (∀ r, x ≠ .reading r) → e.cancelled = m.state.client.reader.toList →
    ∀ id, (n.state.client.channel id).isReaping = false

theorem Station.not_reading {began : Instant} (h : x.began? = some began) (r : Reading) :
    x ≠ .reading r := by
  rintro rfl
  cases h

namespace Stride

variable {now : Instant} {e : Effects Server}

theorem spawned (h : Stride now next s x e y fresh) : e.spawned = fresh.tasks := by cases h <;> rfl

theorem cancelled (h : Stride now next s x e y fresh) :
    e.cancelled = [] ∨ (∀ r, x ≠ .reading r) ∧ e.cancelled = s.client.reader.toList := by
  cases h with
  | clears => exact .inr ⟨nofun, rfl⟩
  | launches hx => exact .inr ⟨Station.not_reading hx, rfl⟩
  | fails hx => exact .inr ⟨Station.not_reading hx, rfl⟩
  | _ => exact .inl rfl

/-- Nobody but a reader begins to wait for the end of a process. -/
theorem isReaping (h : Stride now next s x e y fresh) (hx : ∀ r, x ≠ .reading r) (id : ChannelId)
    (hid : (e.state.client.channel id).isReaping = true) : (s.client.channel id).isReaping = true := by
  cases h with
  | asks | stays => exact hid
  | @decides plan s' hheld hplan =>
    have hframe := (planned (s.time now) s).frame
    rw [hplan] at hframe
    have hclient : (hold (isTried plan) s').client = s.client := hframe.2.2.1
    exact hclient ▸ hid
  | clears hs => exact hs.client.isReaping id hid
  | launches _ _ hs => exact hs.isReaping id hid
  | probes hs => exact hs.client.isReaping id hid
  | comesUp hs => exact hs.client.isReaping id hid
  | fails _ _ hs => exact hs.client.isReaping id hid
  | reads => exact absurd rfl (hx _)

end Stride

theorem Sound.moves {m n : Machine Server} (h : Sound crew m.state m.next)
    (htasks : m.tasks = crew.tasks) (hn : m.step? i = some n) : ∃ x e y fresh, Moved crew m i x e y fresh n := by
  obtain ⟨t, r, ht, hr, rfl⟩ := step?_eq_some.mp hn
  have hmem := mem_of_lookup ht
  rw [htasks] at hmem
  obtain ⟨x, hx, rfl⟩ := Crew.mem_tasks.mp hmem
  obtain ⟨y, fresh, hstride, hy⟩ := resume_station (fun began hb => h.down i began (hb ▸ hx))
    (fun began old hb => h.cleared i began old (hb ▸ hx)) hr
  obtain ⟨e, t'⟩ := r
  obtain rfl : t' = Station.rest y := hy
  have hreaders : ∀ j ∈ e.cancelled, ∀ z, (j, z) ∈ crew → ∃ r, z = .reading r := by
    intro j hj z hz
    obtain hnone | ⟨-, hsome⟩ := hstride.cancelled
    · rw [hnone] at hj
      cases hj
    · rw [hsome] at hj
      exact (h.manned j (Option.mem_toList.mp hj)).2 z hz
  -- only readers are cancelled, and only by those that are none
  have hi : i ∉ e.cancelled := by
    intro hi
    obtain ⟨r, rfl⟩ := hreaders i hi x hx
    obtain hnone | ⟨hnot, -⟩ := hstride.cancelled
    · rw [hnone] at hi
      cases hi
    · exact hnot r rfl
  obtain ⟨s', hsettle, hstays, hsame, hfree⟩ := settle_tasks (y := y) htasks hstride.spawned hi hreaders
  refine ⟨x, e, y, fresh, hx, hstride, ?_, ?_, ?_, ?_, ?_, ?_⟩
  · rw [hsettle]
  · rw [hsettle]
  · rw [hsettle]
  · rw [hsettle]
    exact hstays
  · rw [hsettle]
    exact hsame
  · rw [hsettle]
    intro hnot hcancelled id
    refine Bool.eq_false_iff.mpr fun hreaping => ?_
    obtain ⟨j, r, hj, hheld⟩ := h.reaping id
      (hstride.isReaping hnot id (hstays.client.isReaping id hreaping))
    rw [hfree j r id hj (hcancelled ▸ h.not_reading hj) hheld] at hreaping
    cases hreaping

/-- A caller that looks after a start has no more to do than to keep what it was told. -/
theorem Watch.leave (h : Watch crew s) (hi : (i, x) ∈ crew) (hx : x.began?.isSome = true)
    {c : List TaskId} {o : Except Failure Unit} (hchanging : s'.client.isChanging = false) :
    Watch (crew.settle i c (some (.kept o)) []) s' := by
  refine .of_only (y := some (.kept o)) (fun j z => h.only hi hx nobody_new) (fun z hz hholds => ?_)
    (fun hchange => ?_) nofun
  · obtain rfl := Option.some.inj hz
    cases hholds
  · rw [hchanging] at hchange
    cases hchange

/-- A caller that looks after a start goes on in it. -/
theorem Watch.go (h : Watch crew s) (hi : (i, x) ∈ crew) (hx : x.began?.isSome = true)
    (hfresh : ∀ j z, (j, z) ∈ fresh → z.began? = none) {c : List TaskId} {z : Station}
    (hz : z.isChanging = true) (hstarts : s'.starts = s.starts) :
    Watch (crew.settle i c (some z) fresh) s' := by
  refine .of_only (y := some z) (fun j w => h.only hi hx hfresh) (fun _ _ _ => ?_) (fun _ => ?_) ?_
  · exact congrArg StartHistory.isHeld hstarts ▸ h.held i x hi hx
  · exact ⟨z, Crew.mem_settle.mpr (.inr (.inl ⟨rfl, rfl⟩)), hz⟩
  · rintro began heq
    cases heq
    cases hz

theorem Moved.sound {m n : Machine Server} {e : Effects Server} (h : Sound crew m.state m.next)
    (hm : Moved crew m i x e y fresh n) : Sound (crew.settle i e.cancelled y fresh) n.state n.next := by
  obtain ⟨hi, hstride, -, -, hnext, hstays, -, hfree⟩ := hm
  rw [hnext]
  cases hstride with
  | asks =>
    have hy (z : Station) (hz : some (if m.state.client.status.isRunning then Station.kept (.ok ())
        else .waiting) = some z) : z = .kept (.ok ()) ∨ z = .waiting := by
      split at hz
      · exact .inl (Option.some.inj hz).symm
      · exact .inr (Option.some.inj hz).symm
    refine ⟨Watch.idle h hi rfl (fun z hz => ?_) hstays.starts hstays.client.isChanging
      hstays.client.phase, h.toReads.same hi nofun (fun z hz => ?_) hstays.client.reader hstays.client.isReaping⟩
    · obtain rfl | rfl := hy z hz <;> rfl
    · obtain rfl | rfl := hy z hz <;> exact ⟨nofun, nofun⟩
  | @stays o =>
    refine ⟨Watch.idle h hi rfl (fun z hz => ?_) hstays.starts hstays.client.isChanging
      hstays.client.phase, h.toReads.same hi nofun (fun z hz => ?_) hstays.client.reader hstays.client.isReaping⟩
    · exact Option.some.inj hz ▸ rfl
    · exact Option.some.inj hz ▸ ⟨nofun, nofun⟩
  | @reads r q s' hs =>
    have hs := hs.trans hstays
    obtain ⟨-, hstarts, -, -, hchanging, -, hphase⟩ := hs.frame
    refine ⟨Watch.idle h hi rfl (fun z hz => ?_) hstarts hchanging hphase, h.toReads.read hi hs⟩
    obtain ⟨_, -, rfl⟩ := Option.map_eq_some_iff.mp hz
    rfl
  | @decides plan s' hheld hplan =>
    have hplanned := planned (m.state.time m.now) m.state
    rw [hplan] at hplanned
    have hafter : (hold (isTried plan) s').client = m.state.client := hplanned.frame.2.2.1
    -- nobody looks after a start yet, so after the decision it is this caller or nobody
    have hnobody (j : TaskId) (z : Station) (hz : (j, z) ∈ crew) (hholds : z.began?.isSome = true) :
        False := by
      cases hheld.symm.trans (h.held j z hz hholds)
    refine ⟨.of_only (i := i) (y := some (.decided (m.state.time m.now) plan)) (fun j z hz hholds => ?_)
      (fun z hz hholds => ?_) (fun hchange => ?_) (fun began hz => ?_),
      h.toReads.same hi nofun (fun z hz => ?_) ?_ fun id hid => ?_⟩
    · obtain ⟨hz, -, -⟩ | hself | hz := Crew.mem_settle.mp hz
      · exact (hnobody j z hz hholds).elim
      · exact hself
      · cases hz
    · obtain rfl := Option.some.inj hz
      obtain rfl := began?_decided.mp hholds
      rw [hstays.starts]
      rfl
    · have hchange := hstays.client.isChanging.symm.trans hchange
      rw [hafter] at hchange
      obtain ⟨j, z, hz, hinside⟩ := h.changing hchange
      exact (hnobody j z hz (Station.isSome_of_isChanging hinside)).elim
    · have htried : plan = .tried := began?_decided.mp (by rw [Option.some.inj hz]; rfl)
      subst htried
      intro hup
      have hup := hstays.client.phase hup
      rw [hafter] at hup
      exact hplanned.down hup
    · obtain rfl := Option.some.inj hz
      cases plan <;> exact ⟨nofun, nofun⟩
    · rw [hstays.client.reader, hafter]
    · have hid := hstays.client.isReaping id hid
      rwa [hafter] at hid
  | clears hs =>
    have hs := hs.trans hstays
    exact ⟨h.toWatch.go hi rfl nobody_new rfl hs.starts,
      h.toReads.drop hi (fun z hz => Option.some.inj hz ▸ nofun) hs.client.reader (hfree nofun rfl)⟩
  | @launches x began p id s' hx hdue hs =>
    have hholds : x.began?.isSome = true := hx ▸ rfl
    have hfresh (j : TaskId) (z : Station) (hz : (j, z) ∈ [(m.next, Station.reading (.next id))]) :
        z.began? = none := by
      cases List.mem_singleton.mp hz
      rfl
    refine ⟨h.toWatch.go hi hholds hfresh rfl (hstays.starts.trans hs.starts),
      h.toReads.send hi nofun (fun j began old hz => ?_) (hstays.client.reader.trans hs.reader)
        (hfree (Station.not_reading hx) rfl)⟩
    obtain ⟨-, hself⟩ := h.toWatch.only hi hholds hfresh hz rfl
    cases hself
  | probes hs =>
    have hs := hs.trans hstays
    refine ⟨h.toWatch.go hi rfl nobody_new rfl hs.starts,
      h.toReads.same hi nofun (fun z hz => ?_) hs.client.reader hs.client.isReaping⟩
    exact Option.some.inj hz ▸ ⟨nofun, nofun⟩
  | comesUp hs =>
    refine ⟨h.toWatch.leave hi rfl hstays.client.isChanging, h.toReads.same hi nofun (fun z hz => ?_)
      (hstays.client.reader.trans hs.client.reader) fun id hid => ?_⟩
    · exact Option.some.inj hz ▸ ⟨nofun, nofun⟩
    · exact hs.client.isReaping id (hstays.client.isReaping id hid)
  | @fails x began b reason s' hx hwhy hs =>
    exact ⟨h.toWatch.leave hi (hx ▸ rfl) hstays.client.isChanging,
      h.toReads.drop hi (fun z hz => Option.some.inj hz ▸ nofun)
        (hstays.client.reader.trans hs.client.reader) (hfree (Station.not_reading hx) rfl)⟩

end LanguageServer.Server.Guard
