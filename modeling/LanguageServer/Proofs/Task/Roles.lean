import LanguageServer.Proofs.Task.Pact

/-! All tasks of a machine under one pact. If every task keeps to it, every move does: the invariant
goes on, and the roles that are played are those of the tasks that there are. -/
namespace LanguageServer

variable {γ ρ σ α β : Type}

namespace Pact

/-- A task keeps to the pact when its turn comes, now or later. -/
def Ready (c : Pact γ ρ σ) (i : TaskId) (w : World γ ρ) (t : Task σ Unit) : Prop :=
  ∀ v s, c.Later i w v → c.holds v s → t.Honors c i true (fun _ => c.Rests i) v s

/-- A world in the course of a move of the task `me`, which began in a world `start` when the numbers
from `first` on were free. Everyone who is not new or dropped has the role that they had. -/
structure Midway (c : Pact γ ρ σ) (me first : TaskId) (start : World γ ρ) (e : Machine.Effects σ)
    (w : World γ ρ) : Prop where
  own : c.own start.told w.told
  me_lt : me < first
  first_le : first ≤ e.next
  kept : ∀ i, i ≠ me → i < first → i ∉ e.cancelled → w.role i = start.role i
  dropped : ∀ i ∈ e.cancelled, i ≠ me ∧ (i < first → w.role i = c.gone ∧
    (start.role i = c.gone ∨ c.isLoose (start.role i) = true))
  spawned : ∀ p ∈ e.spawned,
    first ≤ p.1 ∧ p.1 < e.next ∧ c.IsLive (w.role p.1) ∧ c.Ready p.1 w p.2
  distinct : (e.spawned.map (·.1)).Nodup
  stillborn : ∀ i, first ≤ i → i < e.next → i ∉ e.spawned.map (·.1) → w.role i = c.gone
  unborn : ∀ i, e.next ≤ i → w.role i = c.unborn

/-- How a move leaves a task: at its end, or at a wait from which it keeps to the pact. -/
def Leaves (c : Pact γ ρ σ) (me : TaskId) (Q : α → World γ ρ → σ → Prop) (w v : World γ ρ) (s : σ)
    (t : Task σ α) : Prop :=
  (∃ a, t = .done a ∧ v.role me = w.role me ∧ Q a v s) ∨
    Machine.isDone t = false ∧ c.IsLive (v.role me) ∧
      c.isLoose (v.role me) = c.isLoose (w.role me) ∧ c.holds v s ∧
      ∀ u s', c.Later me v u → c.holds u s' → t.Honors c me true Q u s'

/-- A task has moved: the move may go on from the world that it has come to, and the task is left as the
pact has it. -/
def GoesOn (c : Pact γ ρ σ) (me first : TaskId) (start : World γ ρ) (Q : α → World γ ρ → σ → Prop)
    (w : World γ ρ) (r : Machine.Effects σ × Task σ α) : Prop :=
  ∃ v, c.own w.told v.told ∧ c.Midway me first start r.1 v ∧ c.Leaves me Q w v r.1.state r.2

/-- A machine all of whose tasks keep to the pact. Roles are played by tasks. -/
structure Binds (c : Pact γ ρ σ) (w : World γ ρ) (m : Machine σ) : Prop where
  holds : c.holds w m.state
  shows : c.shows w.told m.now
  ready : ∀ p ∈ m.tasks, c.Ready p.1 w p.2
  below : ∀ p ∈ m.tasks, p.1 < m.next
  distinct : (m.tasks.map (·.1)).Nodup
  live : ∀ i, c.IsLive (w.role i) ↔ i ∈ m.tasks.map (·.1)
  unborn : ∀ i, m.next ≤ i → w.role i = c.unborn

variable {c : Pact γ ρ σ} {me first : TaskId} {start w v : World γ ρ} {e : Machine.Effects σ} {s : σ}

theorem Leaves.of_role {t : Task σ α} {Q : α → World γ ρ → σ → Prop} {u : World γ ρ}
    (h : c.Leaves me Q u v s t) (hrole : u.role me = w.role me) : c.Leaves me Q w v s t := by
  rwa [Leaves, hrole] at h

section Midway

theorem Midway.state (h : c.Midway me first start e w) (s : σ) :
    c.Midway me first start { e with state := s } w := { h with }

variable (hc : c.IsFair)
include hc

theorem Ready.of_own {i : TaskId} {t : Task σ Unit} (h : c.Ready i w t)
    (hv : c.own w.told v.told) (hrole : v.role i = w.role i) : c.Ready i v t :=
  fun u s hu hs => h u s ⟨hc.others_of_own _ _ _ hv hu.1, hu.2.trans hrole⟩ hs

theorem Ready.of_later {i : TaskId} {t : Task σ Unit} (h : c.Ready i w t) (hv : c.Later i w v) :
    c.Ready i v t :=
  fun u s hu hs => h u s ⟨hc.others_trans _ _ _ hv.1 hu.1, hu.2.trans hv.2⟩ hs

theorem Midway.tell (h : c.Midway me first start e w) {g : γ} (hg : c.own w.told g) :
    c.Midway me first start e (w.tell g) where
  own := hc.own_trans _ _ _ h.own hg
  me_lt := h.me_lt
  first_le := h.first_le
  kept := h.kept
  dropped := h.dropped
  spawned p hp := by
    obtain ⟨hfirst, hnext, hrole, hready⟩ := h.spawned p hp
    exact ⟨hfirst, hnext, hrole, hready.of_own hc hg rfl⟩
  distinct := h.distinct
  stillborn := h.stillborn
  unborn := h.unborn

theorem Midway.cast_self (h : c.Midway me first start e w) (r : ρ) :
    c.Midway me first start e (w.cast me r) where
  own := h.own
  me_lt := h.me_lt
  first_le := h.first_le
  kept i hi hlt hnot := (w.role_cast_of_ne r hi).trans (h.kept i hi hlt hnot)
  dropped i hi := by
    obtain ⟨hne, hold⟩ := h.dropped i hi
    exact ⟨hne, fun hlt => (hold hlt).imp_left (w.role_cast_of_ne r hne).trans⟩
  spawned p hp := by
    obtain ⟨hfirst, hnext, hrole, hready⟩ := h.spawned p hp
    have hne : p.1 ≠ me := Nat.ne_of_gt (Nat.lt_of_lt_of_le h.me_lt hfirst)
    have hsame := w.role_cast_of_ne r hne
    exact ⟨hfirst, hnext, hsame ▸ hrole, hready.of_own hc (hc.own_refl _) hsame⟩
  distinct := h.distinct
  stillborn i hi hlt hnot := by
    have hne : i ≠ me := Nat.ne_of_gt (Nat.lt_of_lt_of_le h.me_lt hi)
    exact (w.role_cast_of_ne r hne).trans (h.stillborn i hi hlt hnot)
  unborn i hi := by
    have hne : i ≠ me := Nat.ne_of_gt (Nat.lt_of_lt_of_le h.me_lt (Nat.le_trans h.first_le hi))
    exact (w.role_cast_of_ne r hne).trans (h.unborn i hi)

theorem Midway.spawn (h : c.Midway me first start e w) {g : γ} (hg : c.own w.told g) {r : ρ}
    (hr : c.IsLive r) {child : Task σ Unit}
    (hchild : c.Ready e.next ((w.tell g).cast e.next r) child) :
    c.Midway me first start
      { e with next := e.next + 1, spawned := e.spawned ++ [(e.next, child)] }
      ((w.tell g).cast e.next r) := by
  have hsame {i : TaskId} (hi : i ≠ e.next) : ((w.tell g).cast e.next r).role i = w.role i :=
    World.role_cast_of_ne _ r hi
  refine
    { own := hc.own_trans _ _ _ h.own hg
      me_lt := h.me_lt
      first_le := Nat.le_succ_of_le h.first_le
      kept := fun i hi hlt hnot => ?_
      dropped := fun i hi => ⟨(h.dropped i hi).1, fun hlt => ?_⟩
      spawned := fun p hp => ?_
      distinct := ?_
      stillborn := fun i hi hlt hnot => ?_
      unborn := fun i hi => ?_ }
  · exact (hsame (Nat.ne_of_lt (Nat.lt_of_lt_of_le hlt h.first_le))).trans (h.kept i hi hlt hnot)
  · have hne := hsame (Nat.ne_of_lt (Nat.lt_of_lt_of_le hlt h.first_le))
    exact ((h.dropped i hi).2 hlt).imp_left hne.trans
  · obtain hp | hp := List.mem_append.mp hp
    · obtain ⟨hfirst, hnext, hrole, hready⟩ := h.spawned p hp
      have hne := hsame (Nat.ne_of_lt hnext)
      exact ⟨hfirst, Nat.lt_succ_of_lt hnext, hne ▸ hrole, hready.of_own hc hg hne⟩
    · cases List.mem_singleton.mp hp
      exact ⟨h.first_le, Nat.lt_succ_self _, by simpa using hr, hchild⟩
  · rw [List.map_append]
    refine List.nodup_append.mpr ⟨h.distinct, List.nodup_cons.mpr ⟨List.not_mem_nil, List.nodup_nil⟩, fun i hi j hj => ?_⟩
    obtain ⟨p, hp, rfl⟩ := List.mem_map.mp hi
    cases List.mem_singleton.mp hj
    exact Nat.ne_of_lt (h.spawned p hp).2.1
  · rw [List.map_append, List.mem_append, not_or] at hnot
    have hne : i ≠ e.next := by simpa using hnot.2
    have hlt : i < e.next := Nat.lt_of_le_of_ne (Nat.le_of_lt_succ hlt) hne
    exact (hsame hne).trans (h.stillborn i hi hlt hnot.1)
  · exact (hsame (Nat.ne_of_gt hi)).trans (h.unborn i (Nat.le_of_succ_le hi))

theorem Midway.cancel (h : c.Midway me first start e w) {i : TaskId} (hi : i ≠ me)
    (hloose : w.role i = c.gone ∨ c.isLoose (w.role i) = true) :
    c.Midway me first start { e with
      spawned := e.spawned.filter (·.1 ≠ i)
      cancelled := i :: e.cancelled } (w.cast i c.gone) := by
  have hsame {j : TaskId} (hj : j ≠ i) : (w.cast i c.gone).role j = w.role j :=
    w.role_cast_of_ne _ hj
  refine
    { own := h.own
      me_lt := h.me_lt
      first_le := h.first_le
      kept := fun j hj hlt hnot => ?_
      dropped := fun j hj => ?_
      spawned := fun p hp => ?_
      distinct := h.distinct.sublist (List.filter_sublist.map _)
      stillborn := fun j hj hlt hnot => ?_
      unborn := fun j hj => ?_ }
  · obtain ⟨hji, hnot⟩ := not_or.mp (List.mem_cons.not.mp hnot)
    exact (hsame hji).trans (h.kept j hj hlt hnot)
  · by_cases hji : j = i
    · subst hji
      refine ⟨hi, fun hlt => ⟨w.role_cast_self _ _, ?_⟩⟩
      by_cases hcancelled : j ∈ e.cancelled
      · exact ((h.dropped j hcancelled).2 hlt).2
      · exact h.kept j hi hlt hcancelled ▸ hloose
    · have hj := (List.mem_cons.mp hj).resolve_left hji
      exact ⟨(h.dropped j hj).1, fun hlt => ((h.dropped j hj).2 hlt).imp_left (hsame hji).trans⟩
  · obtain ⟨hp, hpi⟩ := List.mem_filter.mp hp
    have hpi : p.1 ≠ i := by simpa using hpi
    obtain ⟨hfirst, hnext, hrole, hready⟩ := h.spawned p hp
    exact ⟨hfirst, hnext, hsame hpi ▸ hrole, hready.of_own hc (hc.own_refl _) (hsame hpi)⟩
  · by_cases hji : j = i
    · exact hji ▸ w.role_cast_self _ _
    · refine (hsame hji).trans (h.stillborn j hj hlt fun hmem => hnot ?_)
      obtain ⟨p, hp, rfl⟩ := List.mem_map.mp hmem
      exact List.mem_map.mpr ⟨p, List.mem_filter.mpr ⟨hp, by simpa using hji⟩, rfl⟩
  · -- a number that nobody has yet is not loose, so it is not the one that is dropped
    have hji : j ≠ i := by
      rintro rfl
      rw [h.unborn j hj] at hloose
      obtain hgone | hloose := hloose
      · exact hc.gone_ne hgone.symm
      · simp [hc.unborn_fast] at hloose
    exact (hsame hji).trans (h.unborn j hj)

/-- A task that comes to a wait is left there. -/
theorem Parks.goesOn {t : Task σ α} {Q : α → World γ ρ → σ → Prop} (hwaits : Machine.isDone t = false)
    (h : c.Parks me w e.state fun v s => t.Honors c me true Q v s) (hmid : c.Midway me first start e w) :
    c.GoesOn me first start Q w (e, t) := by
  obtain ⟨g, r, hg, hr, hloose, hs, hk⟩ := h
  exact ⟨_, hg, (hmid.tell hc hg).cast_self hc r,
    .inr ⟨hwaits, by simpa using hr, by simpa using hloose, hs, hk⟩⟩

/-- A task that goes on with the role that it had goes on from before. -/
theorem GoesOn.of_own {Q : α → World γ ρ → σ → Prop} {r : Machine.Effects σ × Task σ α}
    (h : c.GoesOn me first start Q v r) (hv : c.own w.told v.told) (hrole : v.role me = w.role me) :
    c.GoesOn me first start Q w r := by
  obtain ⟨u, hu, hmid, hleaves⟩ := h
  exact ⟨u, hc.own_trans _ _ _ hv hu, hmid, hleaves.of_role hrole⟩

/-- A task under a hold goes on with its body, and past the hold once the body has ended. -/
theorem GoesOn.past {release : σ → σ} {k : α → Task σ β} {Q : β → World γ ρ → σ → Prop} {now : Instant}
    {r : Machine.Effects σ × Task σ α} (hrelease : c.Slips me w release) (hnow : c.shows w.told now)
    (hk : ∀ a v (e : Machine.Effects σ), c.Midway me first start e v → c.shows v.told now →
      (k a).Honors c me false Q v e.state → c.GoesOn me first start Q v (Machine.advance now (k a) e))
    (h : c.GoesOn me first start (fun a v s => (k a).Honors c me false Q v (release s)) w r) :
    c.GoesOn me first start Q w (Machine.past now release k r) := by
  obtain ⟨e, t⟩ := r
  obtain ⟨v, hv, hmid, ⟨a, rfl, hrole, ha⟩ | ⟨hwaits, hrole, hloose, hs, hbody⟩⟩ := h
  · exact (hk a v _ (hmid.state (release e.state)) (hc.shows_own _ _ _ hv hnow) ha).of_own hc hv hrole
  · rw [Machine.past_waiting hwaits]
    refine ⟨v, hv, hmid, .inr ⟨rfl, hrole, hloose, hs, fun u s hu hs => ⟨fun hl => hrelease ?_, hbody u s hu hs⟩⟩⟩
    -- whether others may drop the task is as it was when the hold began
    rw [← hloose, ← hu.2, hl]

/-- A task that was called goes on to its first wait. -/
theorem leaves_advance {t : Task σ α} {Q : α → World γ ρ → σ → Prop} {now : Instant}
    (hmid : c.Midway me first start e w) (hnow : c.shows w.told now)
    (h : t.Honors c me false Q w e.state) :
    c.GoesOn me first start Q w (Machine.advance now t e) := by
  induction t generalizing w e with
  | done a => exact ⟨w, hc.own_refl _, hmid, .inl ⟨a, rfl, rfl, h⟩⟩
  | act f k ih => exact ih _ (hmid.state _) hnow (h now hnow)
  | wait d ready k => exact Parks.goesOn hc rfl h hmid
  | yield k => exact Parks.goesOn hc rfl h hmid
  | spawn child k _ ih =>
    have hne : e.next ≠ me := Nat.ne_of_gt (Nat.lt_of_lt_of_le hmid.me_lt hmid.first_le)
    obtain ⟨g, r, hg, hr, hchild, hk⟩ := h e.next hne (hmid.unborn _ (Nat.le_refl _))
    have hgoes := ih e.next (hmid.spawn hc hg hr hchild) (hc.shows_own _ _ _ hg hnow) hk
    exact hgoes.of_own hc hg (World.role_cast_of_ne _ r hne.symm)
  | cancel i k ih =>
    obtain ⟨hi, hloose, hk⟩ := h
    have hgoes := ih (hmid.cancel hc hi hloose) hnow hk
    exact hgoes.of_own hc (hc.own_refl _) (w.role_cast_of_ne _ hi.symm)
  | hold release body k ihbody ihk =>
    rw [Machine.advance_hold]
    exact GoesOn.past hc h.1 hnow (fun a _ _ => ihk a) (ihbody hmid hnow h.2)
  | loop b body k =>
    obtain ⟨J, hfirst, hround⟩ := h
    exact Parks.goesOn hc rfl (hfirst.mono fun u s hb => ⟨J, hb, hround⟩) hmid

/-- A task whose turn has come goes on to its next wait. -/
theorem leaves_resume {t : Task σ α} {Q : α → World γ ρ → σ → Prop} {now : Instant}
    {r : Machine.Effects σ × Task σ α} (hmid : c.Midway me first start e w)
    (hnow : c.shows w.told now) (h : t.Honors c me true Q w e.state)
    (hr : Machine.resume now t e = some r) : c.GoesOn me first start Q w r := by
  induction t generalizing w e with
  | done a => cases hr
  | act f k =>
    cases hr
    exact leaves_advance hc hmid hnow h
  | wait d ready k =>
    simp only [Machine.resume, Option.map_eq_some_iff] at hr
    obtain ⟨⟨b, s'⟩, hready, rfl⟩ := hr
    exact leaves_advance hc (hmid.state s') hnow (h now b s' hnow hready)
  | yield k =>
    cases hr
    exact leaves_advance hc hmid hnow h
  | spawn child k =>
    cases hr
    exact leaves_advance hc hmid hnow h
  | cancel i k =>
    cases hr
    exact leaves_advance hc hmid hnow h
  | hold release body k ihbody _ =>
    rw [Machine.resume_hold] at hr
    obtain ⟨r, hbody, rfl⟩ := Option.map_eq_some_iff.mp hr
    exact GoesOn.past hc h.1 hnow (fun _ _ _ => leaves_advance hc) (ihbody hmid hnow h.2 hbody)
  | loop b body k =>
    obtain ⟨J, hJ, hround⟩ := h
    cases hr
    refine leaves_advance hc hmid hnow ((Task.honors_bind _ _ _).mpr ?_)
    refine (hround b w e.state hJ).mono fun x v s hx => ?_
    cases x with
    | inl b' => exact ⟨J, hx, hround⟩
    | inr x => exact hx

omit hc in
/-- Nothing is lost with what a task holds when it is dropped. -/
theorem holds_release {t : Task σ α} {Q : α → World γ ρ → σ → Prop} (h : t.Honors c me true Q w s)
    (hloose : c.isLoose (w.role me) = true) {s' : σ} (hs : c.holds v s') :
    c.holds v (Machine.release t s') := by
  induction t generalizing s' with
  | hold release body k ihbody _ => exact h.1 hloose v _ (ihbody h.2 hs)
  | _ => exact hs

omit hc in
theorem holds_releaseAll {dropped : List (TaskId × Task σ Unit)} {s' : σ} (hs : c.holds v s')
    (h : ∀ p ∈ dropped, p.2.Honors c p.1 true (fun _ => c.Rests p.1) w s ∧
      c.isLoose (w.role p.1) = true) :
    c.holds v (dropped.foldl (fun s t => Machine.release t.2 s) s') := by
  induction dropped generalizing s' with
  | nil => exact hs
  | cons p rest ih =>
    obtain ⟨hp, hloose⟩ := h p List.mem_cons_self
    exact ih (holds_release hp hloose hs) fun q hq => h q (List.mem_cons_of_mem _ hq)

end Midway

end Pact

/-- Which tasks there are after a move: those that were not dropped, the one that moved unless it has
ended, and the new ones. -/
theorem Machine.tasks_settle (m : Machine σ) {me : TaskId} {e : Machine.Effects σ}
    (task : Task σ Unit) (hkept : e.cancelled.contains me = false) : ∃ others,
      (m.settle me (e, task)).tasks =
        others ++ (if Machine.isDone task then [] else [(me, task)]) ++ e.spawned ∧
      others.Sublist m.tasks ∧ ∀ p, p ∈ others ↔ p ∈ m.tasks ∧ p.1 ≠ me ∧ p.1 ∉ e.cancelled := by
  refine ⟨(m.tasks.filter (·.1 ≠ me)).filter fun t => !e.cancelled.contains t.1, ?_,
    List.filter_sublist.trans List.filter_sublist, fun p => ?_⟩
  · simp only [Machine.settle, List.partition_eq_filter_filter, hkept]
    simp [Function.comp_def]
  · simp only [List.mem_filter, decide_eq_true_eq, Bool.not_eq_true', List.contains_eq_mem,
      decide_eq_false_iff_not, and_assoc]

namespace Pact

variable {c : Pact γ ρ σ} {w v : World γ ρ}

section Binds

variable {m n : Machine σ} (hc : c.IsFair)

theorem Binds.isLive {p : TaskId × Task σ Unit} (hm : c.Binds w m) (hp : p ∈ m.tasks) :
    c.IsLive (w.role p.1) := (hm.live p.1).mpr (List.mem_map_of_mem hp)

/-- Where a move begins. -/
theorem Binds.midway (hc : c.IsFair) (hm : c.Binds w m) {me : TaskId} (hme : me < m.next) :
    c.Midway me m.next w m.effects w where
  own := hc.own_refl _
  me_lt := hme
  first_le := Nat.le_refl _
  kept _ _ _ _ := rfl
  dropped _ hi := absurd hi List.not_mem_nil
  spawned _ hp := absurd hp List.not_mem_nil
  distinct := List.nodup_nil
  stillborn _ hi hlt _ := absurd hlt (Nat.not_lt_of_le hi)
  unborn := hm.unborn

/-- What has become of the task that moved: it has ended and its role is given up, or it waits. -/
def Settled (c : Pact γ ρ σ) (me : TaskId) (u : World γ ρ) (task : Task σ Unit) : Prop :=
  Machine.isDone task = true ∧ u.role me = c.gone ∨
    Machine.isDone task = false ∧ c.IsLive (u.role me) ∧ c.Ready me u task

section Settle

variable {me : TaskId} {e : Machine.Effects σ} {task : Task σ Unit} {u : World γ ρ}

theorem Midway.kept_self (hmid : c.Midway me m.next w e u) : e.cancelled.contains me = false := by
  simpa using fun hcancelled => (hmid.dropped me hcancelled).1 rfl

/-- A task after a move is an old one with its old role, or the one that moved, or new. -/
theorem Midway.mem_settle (hm : c.Binds w m) (hmid : c.Midway me m.next w e u)
    {p : TaskId × Task σ Unit} (hp : p ∈ (m.settle me (e, task)).tasks) :
    p ∈ m.tasks ∧ u.role p.1 = w.role p.1 ∨ p = (me, task) ∧ Machine.isDone task = false ∨
      p ∈ e.spawned := by
  obtain ⟨others, htasks, -, hothers⟩ := Machine.tasks_settle m task hmid.kept_self
  rw [htasks] at hp
  obtain hp | hp := List.mem_append.mp hp
  · obtain hp | hp := List.mem_append.mp hp
    · obtain ⟨hp, hne, hnot⟩ := (hothers p).mp hp
      exact .inl ⟨hp, hmid.kept p.1 hne (hm.below p hp) hnot⟩
    · cases hdone : Machine.isDone task with
      | true => simp [hdone] at hp
      | false => exact .inr (.inl ⟨by simpa [hdone] using hp, rfl⟩)
  · exact .inr (.inr hp)

theorem Midway.distinct_settle (hm : c.Binds w m) (hmid : c.Midway me m.next w e u) :
    ((m.settle me (e, task)).tasks.map (·.1)).Nodup := by
  obtain ⟨others, htasks, hsub, hothers⟩ := Machine.tasks_settle m task hmid.kept_self
  have hmine : ∀ p ∈ (if Machine.isDone task then [] else [(me, task)]), p.1 = me := by
    intro p hp
    split at hp
    · cases hp
    · exact congrArg Prod.fst (List.mem_singleton.mp hp)
  rw [htasks, List.map_append, List.map_append]
  refine List.nodup_append.mpr ⟨List.nodup_append.mpr ⟨hm.distinct.sublist (hsub.map _), ?_, ?_⟩,
    hmid.distinct, ?_⟩
  · split <;> simp
  · intro i hi j hj
    obtain ⟨p, hp, rfl⟩ := List.mem_map.mp hi
    obtain ⟨q, hq, rfl⟩ := List.mem_map.mp hj
    exact hmine q hq ▸ ((hothers p).mp hp).2.1
  · intro i hi j hj
    obtain ⟨q, hq, rfl⟩ := List.mem_map.mp hj
    refine Nat.ne_of_lt (Nat.lt_of_lt_of_le ?_ (hmid.spawned q hq).1)
    obtain hi | hi := List.mem_append.mp hi
    · obtain ⟨p, hp, rfl⟩ := List.mem_map.mp hi
      exact hm.below p ((hothers p).mp hp).1
    · obtain ⟨p, hp, rfl⟩ := List.mem_map.mp hi
      exact hmine p hp ▸ hmid.me_lt

/-- The roles that are played after a move are those of the tasks that there are. -/
theorem Midway.live_settle (hm : c.Binds w m) (hmid : c.Midway me m.next w e u)
    (hself : c.Settled me u task) (i : TaskId) :
    c.IsLive (u.role i) ↔ i ∈ (m.settle me (e, task)).tasks.map (·.1) := by
  constructor
  · intro hlive
    obtain ⟨others, htasks, -, hothers⟩ := Machine.tasks_settle m task hmid.kept_self
    rw [htasks, List.map_append, List.map_append, List.mem_append, List.mem_append]
    by_cases hspawned : i ∈ e.spawned.map (·.1)
    · exact .inr hspawned
    · have hnext : i < e.next := by
        by_contra hle
        exact hlive.1 (hmid.unborn i (Nat.le_of_not_lt hle))
      have hlt : i < m.next := by
        by_contra hle
        exact hlive.2 (hmid.stillborn i (Nat.le_of_not_lt hle) hnext hspawned)
      -- the task that moved plays on while it waits; all others are as they were
      by_cases hi : i = me
      · subst hi
        obtain ⟨-, hgone⟩ | ⟨hwaits, -⟩ := hself
        · exact absurd hgone hlive.2
        · simp [hwaits]
      · by_cases hcancelled : i ∈ e.cancelled
        · exact absurd ((hmid.dropped i hcancelled).2 hlt).1 hlive.2
        · rw [hmid.kept i hi hlt hcancelled] at hlive
          obtain ⟨p, hp, rfl⟩ := List.mem_map.mp ((hm.live i).mp hlive)
          exact .inl (.inl (List.mem_map_of_mem ((hothers p).mpr ⟨hp, hi, hcancelled⟩)))
  · intro hi
    obtain ⟨p, hp, rfl⟩ := List.mem_map.mp hi
    obtain ⟨hp, hrole⟩ | ⟨rfl, hwaits⟩ | hp := hmid.mem_settle hm hp
    · rw [hrole]
      exact hm.isLive hp
    · obtain ⟨hdone, -⟩ | ⟨-, hrole, -⟩ := hself
      · cases hdone.symm.trans hwaits
      · exact hrole
    · exact (hmid.spawned p hp).2.2.1

end Settle

include hc

theorem Leaves.settled {me : TaskId} {e : Machine.Effects σ} {task : Task σ Unit}
    (hmid : c.Midway me m.next w e v) (hleaves : c.Leaves me (fun _ => c.Rests me) w v e.state task) :
    ∃ u, c.Midway me m.next w e u ∧ c.holds u e.state ∧ c.Settled me u task := by
  obtain ⟨a, rfl, -, g, hg, hs⟩ | ⟨hwaits, hrole, -, hs, hready⟩ := hleaves
  · exact ⟨_, (hmid.tell hc hg).cast_self hc c.gone, hs, .inl ⟨rfl, World.role_cast_self _ _ _⟩⟩
  · exact ⟨v, hmid, hs, .inr ⟨hwaits, hrole, hready⟩⟩

/-- A move that leaves its task as the pact has it leaves the machine so. -/
theorem Binds.settle (hm : c.Binds w m) (hw : c.others w.told w.told) {me : TaskId}
    {r : Machine.Effects σ × Task σ Unit}
    (hmid : c.Midway me m.next w r.1 v)
    (hleaves : c.Leaves me (fun _ => c.Rests me) w v r.1.state r.2) :
    ∃ u, c.own w.told u.told ∧ c.Binds u (m.settle me r) := by
  obtain ⟨e, task⟩ := r
  -- the role of the task that moved is given up with its end
  obtain ⟨u, hmid, hs, hself⟩ := hleaves.settled hc hmid
  have hloose : ∀ p ∈ (m.tasks.filter (·.1 ≠ me)).filter fun t => e.cancelled.contains t.1,
      p.2.Honors c p.1 true (fun _ => c.Rests p.1) w m.state ∧ c.isLoose (w.role p.1) = true := by
    intro p hp
    obtain ⟨hp, hcancelled⟩ := List.mem_filter.mp hp
    have hp := (List.mem_filter.mp hp).1
    refine ⟨hm.ready p hp w m.state ⟨hw, rfl⟩ hm.holds, ?_⟩
    have hdropped := (hmid.dropped p.1 (by simpa using hcancelled)).2 (hm.below p hp)
    exact hdropped.2.resolve_left (hm.isLive hp).2
  refine ⟨u, hmid.own, ?_, hc.shows_own _ _ _ hmid.own hm.shows, fun p hp => ?_, fun p hp => ?_,
    hmid.distinct_settle hm, hmid.live_settle hm hself, hmid.unborn⟩
  · simpa [Machine.settle, List.partition_eq_filter_filter] using holds_releaseAll hs hloose
  · obtain ⟨hp, hrole⟩ | ⟨rfl, hwaits⟩ | hp := hmid.mem_settle hm hp
    · exact (hm.ready p hp).of_own hc hmid.own hrole
    · obtain ⟨hdone, -⟩ | ⟨-, -, hready⟩ := hself
      · cases hdone.symm.trans hwaits
      · exact hready
    · exact (hmid.spawned p hp).2.2.2
  · obtain ⟨hp, -⟩ | ⟨rfl, -⟩ | hp := hmid.mem_settle hm hp
    · exact Nat.lt_of_lt_of_le (hm.below p hp) hmid.first_le
    · exact Nat.lt_of_lt_of_le hmid.me_lt hmid.first_le
    · exact (hmid.spawned p hp).2.1

/-- Every move of a machine whose tasks keep to a pact keeps to it. -/
theorem Binds.step (hm : c.Binds w m) (hw : c.others w.told w.told) {me : TaskId}
    (h : m.step? me = some n) : ∃ v, c.own w.told v.told ∧ c.Binds v n := by
  simp only [Machine.step?, Option.bind_eq_bind, Option.bind_eq_some_iff] at h
  obtain ⟨task, hlookup, r, hresume, hn⟩ := h
  cases hn
  have hmem : (me, task) ∈ m.tasks := by
    obtain ⟨before, after, htasks, -⟩ := List.lookup_eq_some_iff.mp hlookup
    simp [htasks]
  have hhonors := hm.ready _ hmem w m.state ⟨hw, rfl⟩ hm.holds
  obtain ⟨v, -, hmid, hleaves⟩ := leaves_resume hc (hm.midway hc (hm.below _ hmem)) hm.shows
    (e := m.effects) hhonors hresume
  exact hm.settle hc hw hmid hleaves

/-- A new task that keeps to the pact may join. -/
theorem Binds.spawn (hm : c.Binds w m) {t : Task σ Unit} {g : γ} (hg : c.others w.told g)
    (hnow : c.shows g m.now) {r : ρ} (hr : c.IsLive r)
    (hs : c.holds ((w.tell g).cast m.next r) m.state)
    (ht : c.Ready m.next ((w.tell g).cast m.next r) t) :
    c.Binds ((w.tell g).cast m.next r) (m.spawn t) := by
  have hsame {i : TaskId} (hi : i ≠ m.next) : ((w.tell g).cast m.next r).role i = w.role i :=
    World.role_cast_of_ne _ r hi
  have hne {p : TaskId × Task σ Unit} (hp : p ∈ m.tasks) : p.1 ≠ m.next := Nat.ne_of_lt (hm.below p hp)
  refine ⟨hs, hnow, fun p hp => ?_, fun p hp => ?_, ?_, fun i => ?_, fun i hi => ?_⟩
  · obtain hp | hp := List.mem_append.mp hp
    · exact (hm.ready p hp).of_later hc ⟨hg, hsame (hne hp)⟩
    · cases List.mem_singleton.mp hp
      exact ht
  · obtain hp | hp := List.mem_append.mp hp
    · exact Nat.lt_succ_of_lt (hm.below p hp)
    · cases List.mem_singleton.mp hp
      exact Nat.lt_succ_self _
  · simp only [Machine.spawn, List.map_append]
    refine List.nodup_append.mpr ⟨hm.distinct, by simp, fun i hi j hj => ?_⟩
    obtain ⟨p, hp, rfl⟩ := List.mem_map.mp hi
    exact List.mem_singleton.mp hj ▸ hne hp
  · simp only [Machine.spawn, List.map_append, List.mem_append]
    by_cases hi : i = m.next
    · subst hi
      simpa using hr
    · rw [hsame hi, hm.live i]
      simp [hi]
  · exact (hsame (Nat.ne_of_gt hi)).trans (hm.unborn i (Nat.le_of_succ_le hi))

/-- What is told, the state and the time may be moved on by what is no task. -/
theorem Binds.others (hm : c.Binds w m) {g : γ} (hg : c.others w.told g) {s : σ}
    (hs : c.holds (w.tell g) s) {t : Instant} (ht : c.shows g t) :
    c.Binds (w.tell g) { m with state := s, now := t } where
  holds := hs
  shows := ht
  ready p hp := (hm.ready p hp).of_later hc ⟨hg, rfl⟩
  below := hm.below
  distinct := hm.distinct
  live := hm.live
  unborn := hm.unborn

end Binds

end Pact
end LanguageServer
