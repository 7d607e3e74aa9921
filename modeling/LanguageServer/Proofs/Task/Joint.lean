import LanguageServer.Proofs.Task.Contract

/-! All tasks of a machine under one contract. If every task keeps to it, every move does: the world
goes on as the task that moves may move it, and all tasks still keep to the contract from there. -/
namespace LanguageServer

variable {ω σ α β : Type}

namespace Contract

/-- A contract for all tasks of a machine, among them what is spawned and what is dropped. None has
to come to its end. -/
structure Orderly (c : Contract ω σ) : Prop where
  shared : c.isShared
  endless : ¬ c.isTotal
  stalls : ∀ s, c.stalls s
  own_refl : ∀ w, c.own w w
  own_trans : ∀ u v w, c.own u v → c.own v w → c.own u w
  others_trans : ∀ u v w, c.others u v → c.others v w → c.others u w
  others_of_own : ∀ u v w, c.own u v → c.others v w → c.others u w

/-- A task keeps to the contract when its turn comes, now or later. -/
def Ready (c : Contract ω σ) (w : ω) (t : Task σ Unit) : Prop :=
  ∀ v s, c.others w v → c.holds v s → t.MeetsFrom c true (fun _ => c.Rests) v s

/-- How a move leaves a task: at its end, or at a wait from which it keeps to the contract. -/
def Leaves (c : Contract ω σ) (Q : α → ω → σ → Prop) (w : ω) (s : σ) (t : Task σ α) : Prop :=
  (∃ a, t = .done a ∧ Q a w s) ∨ Machine.isDone t = false ∧ c.holds w s ∧
    ∀ v s', c.others w v → c.holds v s' → t.MeetsFrom c true Q v s'

/-- A task has moved: its world may tell so, whom it has spawned may join, and it is left as the
contract has it. -/
def GoesOn (c : Contract ω σ) (Q : α → ω → σ → Prop) (w : ω) (r : Machine.Effects σ × Task σ α) : Prop :=
  ∃ v, c.own w v ∧ (∀ p ∈ r.1.spawned, c.Ready v p.2) ∧ c.Leaves Q v r.1.state r.2

/-- A machine all of whose tasks keep to the contract. -/
structure Binds (c : Contract ω σ) (w : ω) (m : Machine σ) : Prop where
  holds : c.holds w m.state
  ready : ∀ p ∈ m.tasks, c.Ready w p.2

variable {c : Contract ω σ} (hc : c.Orderly) {u v w : ω} {s : σ}
include hc

theorem Ready.own {t : Task σ Unit} (h : c.Ready w t) (hv : c.own w v) : c.Ready v t :=
  fun u s hu hs => h u s (hc.others_of_own w v u hv hu) hs

theorem Ready.others {t : Task σ Unit} (h : c.Ready w t) (hv : c.others w v) : c.Ready v t :=
  fun u s hu hs => h u s (hc.others_trans w v u hv hu) hs

/-- A task may move the world on before it begins, if it may do so at its end. -/
theorem meetsFrom_of_own {t : Task σ α} {Q : α → ω → σ → Prop} {waited : Bool}
    (hQ : ∀ a w v s, c.own w v → Q a v s → Q a w s) (hv : c.own w v)
    (h : t.MeetsFrom c waited Q v s) : t.MeetsFrom c waited Q w s := by
  have hparks {w v : ω} {s : σ} {P : ω → σ → Prop} (hv : c.own w v) (h : c.Parks v s P) :
      c.Parks w s P := by
    obtain ⟨u, hu, hs, hP⟩ := h
    exact ⟨u, hc.own_trans _ _ _ hv hu, hs, hP⟩
  have hturns {w v : ω} {s : σ} {P : ω → σ → Prop} {waited : Bool} (hv : c.own w v)
      (hP : P v s → P w s) (h : c.Turns waited v s P) : c.Turns waited w s P := by
    cases waited with
    | true => exact hP h
    | false => exact hparks hv h
  induction t generalizing w v s waited with
  | done a => exact hQ a w v s hv h
  | act f k ih => exact fun t => ih _ hQ hv (h t)
  | wait d ready k ih =>
    exact hturns hv (fun h => ⟨h.1, fun t b s' hb => ih b hQ hv (h.2 t b s' hb)⟩) h
  | yield k ih => exact hturns hv (ih hQ hv) h
  | spawn child k _ _ =>
    obtain ⟨u, hu, hchild, hk⟩ := h
    exact ⟨u, hc.own_trans _ _ _ hv hu, hchild, hk⟩
  | cancel i k ih => exact ih hQ hv h
  | hold release body k ihbody ihk =>
    exact ⟨h.1, ihbody (fun b w v s hv hb => ihk b hQ hv hb) hv h.2⟩
  | loop b body k ihbody ihk =>
    -- the invariant of the rounds is what another world tells that this one may be moved on to
    obtain ⟨J, rank, hfirst, hround⟩ := h
    refine ⟨fun b w s => ∃ v, c.own w v ∧ J b v s, rank, ?_, fun b w s hb => ?_⟩
    · cases waited with
      | true => exact ⟨v, hv, hfirst⟩
      | false => exact hparks hv (hfirst.mono fun v s hb => ⟨v, hc.own_refl v, hb⟩)
    · obtain ⟨v, hv, hb⟩ := hb
      refine ihbody b (fun r w v s hv hr => ?_) hv ((hround b v s hb).mono fun r v s hr => ?_)
      · cases r with
        | inl b' => exact ⟨hparks hv hr.1, hr.2⟩
        | inr r => exact ihk r hQ hv hr
      · cases r with
        | inl b' => exact ⟨hr.1.mono fun v s hb => ⟨v, hc.own_refl v, hb⟩, hr.2⟩
        | inr r => exact hr

/-- A task that comes to a wait is left there. -/
theorem Parks.goesOn {t : Task σ α} {Q : α → ω → σ → Prop} {e : Machine.Effects σ}
    (hwaits : Machine.isDone t = false) (h : c.Parks w e.state fun v s => t.MeetsFrom c true Q v s)
    (hspawned : ∀ p ∈ e.spawned, c.Ready w p.2) : c.GoesOn Q w (e, t) := by
  obtain ⟨v, hv, hs, hk⟩ := h
  exact ⟨v, hv, fun p hp => (hspawned p hp).own hc hv, .inr ⟨hwaits, hs, hk⟩⟩

/-- A task under a hold goes on with its body, and past the hold once the body has ended. -/
theorem GoesOn.past {release : σ → σ} {k : α → Task σ β} {Q : β → ω → σ → Prop} {now : Instant}
    {r : Machine.Effects σ × Task σ α} (hrelease : c.isShared → ∀ v s, c.holds v s → c.Rests v (release s))
    (hk : ∀ a v (e : Machine.Effects σ), (k a).Meets c Q v e.state → (∀ p ∈ e.spawned, c.Ready v p.2) →
      c.GoesOn Q v (Machine.advance now (k a) e))
    (h : c.GoesOn (fun a v s => (k a).Meets c Q v (release s)) w r) :
    c.GoesOn Q w (Machine.past now release k r) := by
  obtain ⟨e, t⟩ := r
  obtain ⟨v, hv, hspawned, ⟨a, rfl, ha⟩ | ⟨hwaits, hs, hbody⟩⟩ := h
  · obtain ⟨u, hu, hgoes⟩ := hk a v { e with state := release e.state } ha hspawned
    exact ⟨u, hc.own_trans _ _ _ hv hu, hgoes⟩
  · rw [Machine.past_waiting hwaits]
    exact ⟨v, hv, hspawned, .inr ⟨rfl, hs, fun u s hu hs => ⟨hrelease, hbody u s hu hs⟩⟩⟩

/-- A task that was called goes on to its first wait. -/
theorem leaves_advance {t : Task σ α} {Q : α → ω → σ → Prop} (now : Instant) (e : Machine.Effects σ)
    (h : t.Meets c Q w e.state) (hspawned : ∀ p ∈ e.spawned, c.Ready w p.2) :
    c.GoesOn Q w (Machine.advance now t e) := by
  induction t generalizing w e with
  | done a => exact ⟨w, hc.own_refl w, hspawned, .inl ⟨a, rfl, h⟩⟩
  | act f k ih => exact ih _ _ (h now) hspawned
  | wait d ready k => exact Parks.goesOn hc rfl h hspawned
  | yield k => exact Parks.goesOn hc rfl h hspawned
  | spawn child k _ ih =>
    obtain ⟨v, hv, hchild, hk⟩ := h
    obtain ⟨u, hu, hgoes⟩ := ih e.next { e with
      next := e.next + 1
      spawned := e.spawned ++ [(e.next, child)] } (hk e.next) fun p hp => by
        cases List.mem_append.mp hp with
        | inl hp => exact (hspawned p hp).own hc hv
        | inr hp => cases List.mem_singleton.mp hp; exact hchild hc.shared
    exact ⟨u, hc.own_trans _ _ _ hv hu, hgoes⟩
  | cancel i k ih => exact ih _ h fun p hp => hspawned p (List.mem_filter.mp hp).1
  | hold release body k ihbody ihk =>
    rw [Machine.advance_hold]
    exact GoesOn.past hc h.1 (fun a _ e => ihk a e) (ihbody e h.2 hspawned)
  | loop b body k =>
    obtain ⟨J, rank, hfirst, hround⟩ := h
    exact Parks.goesOn hc rfl (hfirst.mono fun v s hb => ⟨J, rank, hb, hround⟩) hspawned

/-- A task whose turn has come goes on to its next wait. -/
theorem leaves_resume {t : Task σ α} {Q : α → ω → σ → Prop} (now : Instant)
    {e : Machine.Effects σ} {r : Machine.Effects σ × Task σ α} (h : t.MeetsFrom c true Q w e.state)
    (hspawned : ∀ p ∈ e.spawned, c.Ready w p.2) (hr : Machine.resume now t e = some r) :
    c.GoesOn Q w r := by
  induction t generalizing w e with
  | done a => cases hr
  | act f k =>
    cases hr
    exact leaves_advance hc now e h hspawned
  | wait d ready k =>
    simp only [Machine.resume, Option.map_eq_some_iff] at hr
    obtain ⟨⟨b, s'⟩, hready, rfl⟩ := hr
    exact leaves_advance hc now { e with state := s' } (h.2 now b s' hready) hspawned
  | yield k =>
    cases hr
    exact leaves_advance hc now e h hspawned
  | spawn child k =>
    cases hr
    exact leaves_advance hc now e h hspawned
  | cancel i k =>
    cases hr
    exact leaves_advance hc now e h hspawned
  | hold release body k ihbody _ =>
    rw [Machine.resume_hold] at hr
    obtain ⟨r, hbody, rfl⟩ := Option.map_eq_some_iff.mp hr
    exact GoesOn.past hc h.1 (fun _ _ e => leaves_advance hc now e) (ihbody h.2 hspawned hbody)
  | loop b body k =>
    obtain ⟨J, rank, hJ, hround⟩ := h
    cases hr
    refine leaves_advance hc now e ((Task.meets_bind _ _ _).mpr ?_) hspawned
    refine (hround b w e.state hJ).mono fun x v s hx => ?_
    cases x with
    | inl b' => exact ⟨J, rank, hx.1, hround⟩
    | inr x => exact hx

/-- What a task holds can be released wherever the world holds. -/
theorem rests_release {t : Task σ α} {Q : α → ω → σ → Prop} (h : t.MeetsFrom c true Q w s) {s' : σ}
    (hs : c.holds v s') : c.Rests v (Machine.release t s') := by
  induction t generalizing v w s s' with
  | hold release body k ihbody _ =>
    obtain ⟨u, hu, hs'⟩ := ihbody h.2 hs
    obtain ⟨u', hu', hs''⟩ := h.1 hc.shared u _ hs'
    exact ⟨u', hc.own_trans _ _ _ hu hu', hs''⟩
  | _ => exact ⟨v, hc.own_refl v, hs⟩

theorem rests_releaseAll {dropped : List (TaskId × Task σ Unit)} {s' : σ} (hs : c.holds v s')
    (h : ∀ p ∈ dropped, p.2.MeetsFrom c true (fun _ => c.Rests) w s) :
    c.Rests v (dropped.foldl (fun s t => Machine.release t.2 s) s') := by
  induction dropped generalizing v s' with
  | nil => exact ⟨v, hc.own_refl v, hs⟩
  | cons p rest ih =>
    obtain ⟨u, hu, hs₁⟩ := rests_release hc (h p List.mem_cons_self) hs
    obtain ⟨u', hu', hs₂⟩ := ih hs₁ fun q hq => h q (List.mem_cons_of_mem _ hq)
    exact ⟨u', hc.own_trans _ _ _ hu hu', hs₂⟩

/-- A move that leaves its task as the contract has it leaves the machine so. -/
theorem Binds.settle {m : Machine σ} (hm : c.Binds w m) (hw : c.others w w) (id : TaskId)
    {r : Machine.Effects σ × Task σ Unit} (hv : c.own w v)
    (hspawned : ∀ p ∈ r.1.spawned, c.Ready v p.2)
    (hleaves : c.Leaves (fun _ => c.Rests) v r.1.state r.2) :
    ∃ u, c.own w u ∧ c.Binds u (m.settle id r) := by
  obtain ⟨e, task⟩ := r
  obtain ⟨u, hu, hs, hself⟩ : ∃ u, c.own v u ∧ c.holds u e.state ∧
      (Machine.isDone task = false → c.Ready v task) := by
    obtain ⟨a, rfl, u, hu, hs⟩ | ⟨hwaits, hs, hready⟩ := hleaves
    · exact ⟨u, hu, hs, by simp [Machine.isDone]⟩
    · exact ⟨v, hc.own_refl v, hs, fun _ => hready⟩
  have hdropped : ∀ p ∈ (m.tasks.filter (·.1 ≠ id)).filter fun t => e.cancelled.contains t.1,
      p.2.MeetsFrom c true (fun _ => c.Rests) w m.state := fun p hp =>
    hm.ready p (List.mem_filter.mp (List.mem_filter.mp hp).1).1 w m.state hw hm.holds
  obtain ⟨u', hu', hs'⟩ := rests_releaseAll hc hs hdropped
  have hvu := hc.own_trans _ _ _ hu hu'
  have hwu := hc.own_trans _ _ _ hv hvu
  refine ⟨u', hwu, by simpa [Machine.settle, List.partition_eq_filter_filter] using hs', ?_⟩
  intro p hp
  simp only [Machine.settle, List.partition_eq_filter_filter, List.mem_append] at hp
  obtain (hp | hp) | hp := hp
  · exact (hm.ready p (List.mem_filter.mp (List.mem_filter.mp hp).1).1).own hc hwu
  · split at hp
    · simp at hp
    · next hstays =>
      cases List.mem_singleton.mp hp
      have hwaits : Machine.isDone task = false := by simpa using fun h => hstays (.inl h)
      exact (hself hwaits).own hc hvu
  · exact (hspawned p hp).own hc hvu

/-- Every move of a machine whose tasks keep to a contract keeps to it. -/
theorem Binds.step {m n : Machine σ} (hm : c.Binds w m) (hw : c.others w w) {id : TaskId}
    (h : m.step? id = some n) : ∃ v, c.own w v ∧ c.Binds v n := by
  simp only [Machine.step?, Option.bind_eq_bind, Option.bind_eq_some_iff] at h
  obtain ⟨task, hlookup, r, hresume, hn⟩ := h
  cases hn
  have hmem : (id, task) ∈ m.tasks := by
    obtain ⟨before, after, htasks, -⟩ := List.lookup_eq_some_iff.mp hlookup
    simp [htasks]
  have hmeets := hm.ready _ hmem w m.state hw hm.holds
  obtain ⟨v, hv, hspawned, hleaves⟩ :=
    leaves_resume hc m.now (e := m.effects) hmeets (by simp [Machine.effects]) hresume
  exact hm.settle hc hw id hv hspawned hleaves

omit hc in
/-- A new task that keeps to the contract may join. -/
theorem Binds.spawn {m : Machine σ} (hm : c.Binds w m) {t : Task σ Unit} (ht : c.Ready w t) :
    c.Binds w (m.spawn t) where
  holds := hm.holds
  ready p hp := by
    cases List.mem_append.mp hp with
    | inl hp => exact hm.ready p hp
    | inr hp => cases List.mem_singleton.mp hp; exact ht

/-- The world and the state may be moved on by what is no task. -/
theorem Binds.others {m : Machine σ} (hm : c.Binds w m) (hv : c.others w v) {s : σ}
    (hs : c.holds v s) (t : Instant) : c.Binds v { m with state := s, now := t } where
  holds := hs
  ready p hp := (hm.ready p hp).others hc hv

end Contract
end LanguageServer

/-! Tasks on a part of a state as tasks on the whole. The rest of the state stays as it is from one
wait to the next. -/
namespace LanguageServer

variable {ω σ τ ρ α : Type}

/-- What is put in place of a part is what is found there, and nothing else changes. -/
structure Lens.IsLawful (l : Lens σ τ) : Prop where
  get_set : ∀ t s, l.get (l.set t s) = t
  set_get : ∀ s, l.set (l.get s) s = s
  set_set : ∀ t t' s, l.set t (l.set t' s) = l.set t s

theorem Lens.IsLawful.andThen {l : Lens σ τ} {m : Lens τ ρ} (hl : l.IsLawful) (hm : m.IsLawful) :
    (l.andThen m).IsLawful where
  get_set u s := by simp only [Lens.andThen, hl.get_set, hm.get_set]
  set_get s := by simp only [Lens.andThen, hm.set_get, hl.set_get]
  set_set u u' s := by simp only [Lens.andThen, hl.get_set, hl.set_set, hm.set_set]

/-- A state put together from the part that a lens gives and a rest. -/
structure Lens.Complement (l : Lens σ τ) (ρ : Type) where
  rest : σ → ρ
  whole : τ → ρ → σ
  whole_get : ∀ s, whole (l.get s) (rest s) = s
  get_whole : ∀ t r, l.get (whole t r) = t
  rest_whole : ∀ t r, rest (whole t r) = r
  set_whole : ∀ t t' r, l.set t' (whole t r) = whole t' r

namespace Contract

/-- A contract on the whole, as a task on a part is bound by it. Its worlds tell the rest too. -/
def within (c : Contract ω σ) (whole : τ → ρ → σ) : Contract (ω × ρ) τ where
  holds w t := c.holds w.1 (whole t w.2)
  own w v := c.own w.1 v.1 ∧ v.2 = w.2
  others w v := c.others w.1 v.1
  stalls t := ∀ r, c.stalls (whole t r)
  isTotal := c.isTotal
  isShared := c.isShared

theorem Orderly.within {c : Contract ω σ} (hc : c.Orderly) (whole : τ → ρ → σ) :
    (c.within whole).Orderly where
  shared := hc.shared
  endless := hc.endless
  stalls _ _ := hc.stalls _
  own_refl w := ⟨hc.own_refl w.1, rfl⟩
  own_trans _ _ _ hv hw := ⟨hc.own_trans _ _ _ hv.1 hw.1, hw.2.trans hv.2⟩
  others_trans _ _ _ hv hw := hc.others_trans _ _ _ hv hw
  others_of_own _ _ _ hv hw := hc.others_of_own _ _ _ hv.1 hw

variable {c : Contract ω σ} {l : Lens σ τ} {w : ω} {r : ρ} {t : τ}

theorem Rests.whole {whole : τ → ρ → σ} (h : (c.within whole).Rests (w, r) t) :
    c.Rests w (whole t r) := by
  obtain ⟨⟨v, r'⟩, ⟨hv, rfl⟩, ht⟩ := h
  exact ⟨v, hv, ht⟩

theorem Parks.whole (p : l.Complement ρ) {P : ω × ρ → τ → Prop} {R : ω → σ → Prop}
    (h : (c.within p.whole).Parks (w, r) t P) (hPR : ∀ v r t, P (v, r) t → R v (p.whole t r)) :
    c.Parks w (p.whole t r) R := by
  obtain ⟨⟨v, r'⟩, ⟨hv, rfl⟩, ht, hP⟩ := h
  refine ⟨v, hv, ht, fun v' s hv' hs => ?_⟩
  have hwhole := p.whole_get s
  exact hwhole ▸ hPR v' _ _ (hP (v', p.rest s) (l.get s) hv' (by simpa only [within, hwhole] using hs))

theorem Turns.whole (p : l.Complement ρ) {waited : Bool} {P : ω × ρ → τ → Prop}
    {R : ω → σ → Prop} (h : (c.within p.whole).Turns waited (w, r) t P)
    (hPR : ∀ v r t, P (v, r) t → R v (p.whole t r)) : c.Turns waited w (p.whole t r) R := by
  cases waited with
  | true => exact hPR w r t h
  | false => exact Parks.whole p h hPR

end Contract

namespace Task

variable {c : Contract ω σ} {l : Lens σ τ} {w : ω} {r : ρ} {s : τ} {waited : Bool}

/-- A task on a part meets on the whole what it meets on the part. -/
theorem MeetsFrom.zoom (p : l.Complement ρ) {t : Task τ α} {Q : α → ω → σ → Prop}
    (h : t.MeetsFrom (c.within p.whole) waited (fun a v s => Q a v.1 (p.whole s v.2)) (w, r) s) :
    (t.zoom l).MeetsFrom c waited Q w (p.whole s r) := by
  have hlift {β : Type} (f : τ → β × τ) (s : τ) (r : ρ) :
      l.lift f (p.whole s r) = ((f s).1, p.whole (f s).2 r) := by
    simp only [Lens.lift, p.get_whole, p.set_whole]
  induction t generalizing w r s waited with
  | done a => exact h
  | act f k ih =>
    intro now
    simp only [hlift]
    exact ih _ (h now)
  | wait d ready k ih =>
    refine Contract.Turns.whole p h fun v r s hv => ⟨fun hstuck => ?_, fun now b o hready => ?_⟩
    · refine hv.1 (fun now => ?_) r
      simpa only [p.get_whole, Option.isNone_map] using hstuck now
    · simp only [p.get_whole, Option.map_eq_some_iff] at hready
      obtain ⟨⟨b, s'⟩, hready, heq⟩ := hready
      cases heq
      rw [p.set_whole]
      exact ih b (hv.2 now b s' hready)
  | yield k ih => exact Contract.Turns.whole p h fun v r s hv => ih hv
  | spawn child k ihchild ih =>
    obtain ⟨⟨v, r'⟩, ⟨hv, rfl⟩, hchild, hk⟩ := h
    refine ⟨v, hv, fun hshared v' o hv' ho => ?_, fun i => ih i (hk i)⟩
    have hwhole := p.whole_get o
    rw [← hwhole] at ho ⊢
    exact ihchild ((hchild hshared (v', p.rest o) (l.get o) hv' ho).mono fun _ v s hv => hv.whole)
  | cancel i k ih => exact ih h
  | hold release body k ihbody ih =>
    refine ⟨fun hshared v o ho => ?_, ?_⟩
    · have hwhole := p.whole_get o
      rw [← hwhole] at ho ⊢
      have hrests := (h.1 hshared (v, p.rest o) (l.get o) ho).whole
      simpa only [Lens.modify, p.get_whole, p.set_whole] using hrests
    · refine ihbody (h.2.mono fun b v s hb => ?_)
      simpa only [Lens.modify, p.get_whole, p.set_whole] using ih b hb
  | loop b body k ihbody ihk =>
    -- the invariant of the rounds is read off the part and the rest of the whole
    obtain ⟨J, rank, hfirst, hround⟩ := h
    refine ⟨fun b v o => J b (v, p.rest o) (l.get o), rank, ?_, fun b v o hb => ?_⟩
    · refine Contract.Turns.whole p hfirst fun v r s hb => ?_
      simpa only [p.rest_whole, p.get_whole] using hb
    · rw [← p.whole_get o]
      refine ihbody b ((hround b _ _ hb).mono fun x v s hx => ?_)
      cases x with
      | inl b' =>
        refine ⟨Contract.Parks.whole p hx.1 fun v r s hb => ?_, hx.2⟩
        simpa only [p.rest_whole, p.get_whole] using hb
      | inr x => exact ihk x hx

theorem zoom_bind {β : Type} (l : Lens σ τ) (t : Task τ α) (g : α → Task τ β) :
    (t.bind g).zoom l = (t.zoom l).bind fun a => (g a).zoom l := by
  induction t with
  | done a => rfl
  | act f k ih => simp only [bind, zoom, ih]
  | wait d ready k ih => simp only [bind, zoom, ih]
  | yield k ih => simp only [bind, zoom, ih]
  | spawn child k _ ih => simp only [bind, zoom, ih]
  | cancel i k ih => simp only [bind, zoom, ih]
  | hold release body k _ ih => simp only [bind, zoom, ih]
  | loop b body k _ ih => simp only [bind, zoom, ih]

theorem zoom_then {β : Type} (l : Lens σ τ) (t : Task τ α) (g : α → Task τ β) :
    (t >>= g).zoom l = t.zoom l >>= fun a => (g a).zoom l := zoom_bind l t g

end Task
end LanguageServer
