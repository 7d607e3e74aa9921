import LanguageServer.Task.Machine
import Mathlib.Data.Nat.Init

/-! What a task may rely on from the others and what it has to keep to itself, and when a task
meets such a contract. The condition is read off the task by recursion, so it composes with `bind`. -/
namespace LanguageServer

/-- The terms on which a task shares its state. A world is what is told of a state beyond the state
itself, its history for one; tasks and the others move it on. -/
structure Contract (ω σ : Type) where
  /-- The states that a world may be in at a wait. -/
  holds : ω → σ → Prop
  /-- How a task may move the world on from one wait to the next. -/
  own : ω → ω → Prop
  /-- How the others may move it on while the task waits. -/
  others : ω → ω → Prop
  /-- The states in which a wait may be unable to go on whatever the time. -/
  stalls : σ → Prop
  /-- Whether every loop has to come to an end. -/
  isTotal : Prop
  /-- Whether what a task spawns is bound by the contract too, and what is released when it is
  dropped. -/
  isShared : Prop

variable {ω σ α β γ : Type}

namespace Contract

/-- At a wait the world holds, and `P` is true of whatever the others make of it. -/
def Parks (c : Contract ω σ) (w : ω) (s : σ) (P : ω → σ → Prop) : Prop :=
  ∃ v, c.own w v ∧ c.holds v s ∧ ∀ v' s', c.others v v' → c.holds v' s' → P v' s'

/-- `P` is true when a task moves on: at once if it has waited already, else after a wait. -/
def Turns (c : Contract ω σ) (waited : Bool) (w : ω) (s : σ) (P : ω → σ → Prop) : Prop :=
  match waited with
  | true => P w s
  | false => c.Parks w s P

/-- The world can be moved on to one that holds. -/
def Rests (c : Contract ω σ) (w : ω) (s : σ) : Prop := ∃ v, c.own w v ∧ c.holds v s

variable {c : Contract ω σ} {w : ω} {s : σ} {P R : ω → σ → Prop}

theorem Parks.mono (h : c.Parks w s P) (hPR : ∀ v s, P v s → R v s) : c.Parks w s R := by
  obtain ⟨v, hv, hs, hP⟩ := h
  exact ⟨v, hv, hs, fun v' s' hv' hs' => hPR v' s' (hP v' s' hv' hs')⟩

theorem Turns.mono {waited : Bool} (h : c.Turns waited w s P) (hPR : ∀ v s, P v s → R v s) :
    c.Turns waited w s R := by
  cases waited with
  | true => exact hPR w s h
  | false => exact Parks.mono h hPR

end Contract

namespace Task

/-- The task keeps to the contract from a world and a state on, and `Q` is true when it ends. It
begins by being called, or to move on from a wait if `waited`. -/
def MeetsFrom (c : Contract ω σ) {α : Type} :
    Bool → Task σ α → (α → ω → σ → Prop) → ω → σ → Prop
  | _, .done a, Q, w, s => Q a w s
  | _, .act f k, Q, w, s => ∀ t, (k (f t s).1).MeetsFrom c false Q w (f t s).2
  | waited, .wait _ ready k, Q, w, s => c.Turns waited w s fun v s =>
    -- a wait that no time ends is allowed only where the contract lets a task be stuck
    ((∀ t, (ready t s).isNone) → c.stalls s) ∧
      ∀ t b s', ready t s = some (b, s') → (k b).MeetsFrom c false Q v s'
  | waited, .yield k, Q, w, s => c.Turns waited w s fun v s => k.MeetsFrom c false Q v s
  | _, .spawn child k, Q, w, s => ∃ v, c.own w v ∧
    (c.isShared → ∀ v' s', c.others v v' → c.holds v' s' →
      child.MeetsFrom c true (fun _ => c.Rests) v' s') ∧
    ∀ i, (k i).MeetsFrom c false Q v s
  | _, .cancel _ k, Q, w, s => k.MeetsFrom c false Q w s
  | waited, .hold release body k, Q, w, s =>
    (c.isShared → ∀ v s, c.holds v s → c.Rests v (release s)) ∧
      body.MeetsFrom c waited (fun b v s => (k b).MeetsFrom c false Q v (release s)) w s
  | waited, .loop b body k, Q, w, s => ∃ (J : _ → ω → σ → Prop) (rank : _ → Nat),
    -- others have their turn between two rounds, so what a round begins with is met anew
    c.Turns waited w s (J b) ∧ ∀ b w s, J b w s → (body b).MeetsFrom c false (fun r v s =>
      match r with
      | .inl b' => c.Parks v s (J b') ∧ (c.isTotal → rank b' < rank b)
      | .inr r => (k r).MeetsFrom c false Q v s) w s

/-- The task, called in a world and a state, keeps to the contract, and `Q` is true when it ends. -/
abbrev Meets (c : Contract ω σ) (t : Task σ α) (Q : α → ω → σ → Prop) (w : ω) (s : σ) : Prop :=
  t.MeetsFrom c false Q w s

variable {c : Contract ω σ} {w : ω} {s : σ} {waited : Bool}

theorem MeetsFrom.mono {t : Task σ α} {Q R : α → ω → σ → Prop} (h : t.MeetsFrom c waited Q w s)
    (hQR : ∀ a w s, Q a w s → R a w s) : t.MeetsFrom c waited R w s := by
  induction t generalizing w s waited with
  | done a => exact hQR a w s h
  | act f k ih => exact fun t => ih _ (h t) hQR
  | wait d ready k ih =>
    exact Contract.Turns.mono h fun v s hv => ⟨hv.1, fun t b s' hb => ih b (hv.2 t b s' hb) hQR⟩
  | yield k ih => exact Contract.Turns.mono h fun v s hv => ih hv hQR
  | spawn child k _ ih =>
    obtain ⟨v, hv, hchild, hk⟩ := h
    exact ⟨v, hv, hchild, fun i => ih i (hk i) hQR⟩
  | cancel i k ih => exact ih h hQR
  | hold release body k ihbody ihk =>
    exact ⟨h.1, ihbody h.2 fun b v s hb => ihk b hb hQR⟩
  | loop b body k ihbody ihk =>
    obtain ⟨J, rank, hfirst, hround⟩ := h
    refine ⟨J, rank, hfirst, fun b w s hb => ihbody b (hround b w s hb) fun r v s hr => ?_⟩
    cases r with
    | inl b' => exact hr
    | inr r => exact ihk r hr hQR

theorem meetsFrom_bind (t : Task σ α) (g : α → Task σ β) (Q : β → ω → σ → Prop)
    (hwaited : Machine.isDone t = false ∨ waited = false) :
    (t.bind g).MeetsFrom c waited Q w s ↔
      t.MeetsFrom c waited (fun a v s => (g a).Meets c Q v s) w s := by
  induction t generalizing w s waited with
  | done a => cases hwaited.resolve_left (by simp [Machine.isDone]); rfl
  | act f k ih => exact forall_congr' fun t => ih _ g (.inr rfl)
  | wait d ready k ih => simp only [bind, MeetsFrom, ih _ _ (.inr rfl)]
  | yield k ih => simp only [bind, MeetsFrom, ih _ (.inr rfl)]
  | spawn child k _ ih => simp only [bind, MeetsFrom, ih _ _ (.inr rfl)]
  | cancel i k ih => exact ih g (.inr rfl)
  | hold release body k _ ihk => simp only [bind, MeetsFrom, ihk _ _ (.inr rfl)]
  | loop b body k _ ihk => simp only [bind, MeetsFrom, ihk _ _ (.inr rfl)]

/-- A task followed by another meets what the first meets when its end is where the second starts. -/
@[simp] theorem meets_bind (t : Task σ α) (g : α → Task σ β) (Q : β → ω → σ → Prop) :
    (t.bind g).Meets c Q w s ↔ t.Meets c (fun a v s => (g a).Meets c Q v s) w s :=
  meetsFrom_bind t g Q (.inr rfl)

theorem MeetsFrom.bind {t : Task σ α} {g : α → Task σ β} {Q : β → ω → σ → Prop}
    (h : t.MeetsFrom c waited (fun a v s => ∀ waited, (g a).MeetsFrom c waited Q v s) w s) :
    (t.bind g).MeetsFrom c waited Q w s := by
  cases t with
  | done a => exact h waited
  | _ => exact (meetsFrom_bind _ g Q (.inl rfl)).mpr (h.mono fun _ _ _ hg => hg false)

@[simp] theorem meets_then (t : Task σ α) (g : α → Task σ β) (Q : β → ω → σ → Prop) :
    (t >>= g).Meets c Q w s ↔ t.Meets c (fun a v s => (g a).Meets c Q v s) w s :=
  meets_bind t g Q

@[simp] theorem meets_done (a : α) (Q : α → ω → σ → Prop) :
    (done a : Task σ α).Meets c Q w s ↔ Q a w s := Iff.rfl

@[simp] theorem meets_pure (a : α) (Q : α → ω → σ → Prop) :
    (pure a : Task σ α).Meets c Q w s ↔ Q a w s := Iff.rfl

@[simp] theorem meets_read (f : σ → α) (Q : α → ω → σ → Prop) :
    (read f).Meets c Q w s ↔ Q (f s) w s := ⟨fun h => h ⟨0⟩, fun h _ => h⟩

@[simp] theorem meets_modify (f : σ → σ) (Q : Unit → ω → σ → Prop) :
    (modify f).Meets c Q w s ↔ Q () w (f s) := ⟨fun h => h ⟨0⟩, fun h _ => h⟩

@[simp] theorem meets_update (f : σ → α × σ) (Q : α → ω → σ → Prop) :
    (update f).Meets c Q w s ↔ Q (f s).1 w (f s).2 := ⟨fun h => h ⟨0⟩, fun h _ => h⟩

theorem meets_giveWay (Q : Unit → ω → σ → Prop) :
    (giveWay : Task σ Unit).Meets c Q w s ↔ c.Parks w s (Q ()) := Iff.rfl

theorem meets_await (ready : σ → Option (α × σ)) (Q : α → ω → σ → Prop) :
    (await ready).Meets c Q w s ↔ c.Parks w s fun v s =>
      (ready s = none → c.stalls s) ∧ ∀ a s', ready s = some (a, s') → Q a v s' := by
  simp [await, Meets, MeetsFrom, Contract.Turns]

/-- An unlimited repetition keeps an invariant; where loops have to end, a rank goes down. -/
theorem Meets.repeatFrom {b : β} {body : β → Task σ (β ⊕ γ)} {Q : γ → ω → σ → Prop}
    (J : β → ω → σ → Prop) (rank : β → Nat) (hb : J b w s)
    (hbody : ∀ b w s, J b w s → c.Parks w s fun v s => (body b).Meets c (fun r v s =>
      match r with
      | .inl b' => J b' v s ∧ (c.isTotal → rank b' < rank b)
      | .inr r => Q r v s) v s) :
    (Task.repeatFrom b body).Meets c Q w s := by
  refine ⟨fun b v s => (body b).Meets c (fun r v s =>
    match r with
    | .inl b' => J b' v s ∧ (c.isTotal → rank b' < rank b)
    | .inr r => Q r v s) v s, rank, hbody b w s hb, fun b v s hround => hround.mono fun r v s hr => ?_⟩
  cases r with
  | inl b' => exact ⟨hbody b' v s hr.1, hr.2⟩
  | inr r => exact hr

end Task
end LanguageServer

/-! One task among others that change the state while it waits. A task that meets its contract alone
comes to its end after finitely many moves, whatever the others do within what it relies on. -/
namespace LanguageServer

/-- What a task knows of the others: how they may change the state while it waits, and the states in
which they may leave it stuck. -/
structure Company (σ : Type) where
  may : σ → σ → Prop
  stalls : σ → Prop

/-- The contract of one task: at a wait the others take the state over as it is. -/
def Contract.alone {σ : Type} (o : Company σ) : Contract σ σ where
  holds w s := w = s
  own _ _ := True
  others := o.may
  stalls := o.stalls
  isTotal := True
  isShared := False

theorem Contract.parks_alone {σ : Type} {o : Company σ} {w s : σ} {P : σ → σ → Prop} :
    (alone o).Parks w s P ↔ ∀ s', o.may s s' → P s' s' := by
  constructor
  · rintro ⟨v, -, rfl, hP⟩ s' hs
    exact hP s' s' hs rfl
  · intro hP
    refine ⟨s, trivial, rfl, ?_⟩
    rintro v' s' hv rfl
    exact hP v' hv

namespace Task

variable {σ α β γ : Type} {o : Company σ}

/-- Left where it waits, the task ends after finitely many moves, and `Q` is true of its value and
the state then. It moves whenever it is chosen and able to, and the others move in between. -/
inductive Ends (o : Company σ) (Q : α → σ → Prop) : Task σ α → σ → Prop
  | done {a : α} {s : σ} : Q a s → Ends o Q (.done a) s
  | move {t : Task σ α} {s : σ} : Machine.isDone t = false →
      (∀ s', o.may s s' → (∀ now n, (Machine.resume now t ⟨s', n, [], []⟩).isNone) → o.stalls s') →
      (∀ s' now e t' e', o.may s s' → e.state = s' → Machine.resume now t e = some (e', t') →
        Ends o Q t' e'.state) →
      Ends o Q t s

/-- Called, the task goes on to its first wait at once and ends from there. -/
def Runs (o : Company σ) (Q : α → σ → Prop) (t : Task σ α) (s : σ) : Prop :=
  ∀ now e, e.state = s → Ends o Q (Machine.advance now t e).2 (Machine.advance now t e).1.state

theorem bind_done (t : Task σ α) : t.bind .done = t := by
  induction t with
  | done a => rfl
  | act f k ih => simp only [bind, ih]
  | wait d ready k ih => simp only [bind, ih]
  | yield k ih => simp only [bind, ih]
  | spawn child k _ ih => simp only [bind, ih]
  | cancel i k ih => simp only [bind, ih]
  | hold release body k _ ih => simp only [bind, ih]
  | loop b body k _ ih => simp only [bind, ih]

theorem Ends.of_isDone {Q : α → σ → Prop} {t : Task σ α} {s : σ} (h : Ends o Q t s)
    (ht : Machine.isDone t = true) : ∃ a, t = .done a ∧ Q a s := by
  cases h with
  | done hQ => exact ⟨_, rfl, hQ⟩
  | move hwaits _ _ => simp [ht] at hwaits

/-- What happens to a held body happens to the task that holds. -/
theorem Ends.hold {Q : β → σ → Prop} {release : σ → σ} {body : Task σ α} {k : α → Task σ β} {s : σ}
    (h : Ends o (fun a s => Runs o Q (k a) (release s)) body s)
    (hwaits : Machine.isDone body = false) : Ends o Q (.hold release body k) s := by
  induction h with
  | done _ => simp [Machine.isDone] at hwaits
  | @move body s _ hstall hnext ih =>
    refine .move rfl (fun s' hs hnone => hstall s' hs fun now n => ?_) ?_
    · simpa [Machine.resume] using hnone now n
    · intro s' now e t' e' hs he hmove
      simp only [Machine.resume, Option.map_eq_some_iff] at hmove
      obtain ⟨⟨e₁, t₁⟩, hbody, hr⟩ := hmove
      cases hd : Machine.isDone t₁ with
      | true =>
        obtain ⟨a, rfl, ha⟩ := (hnext s' now e t₁ e₁ hs he hbody).of_isDone hd
        have hk := ha now { e₁ with state := release e₁.state } rfl
        simp only at hr
        rwa [hr] at hk
      | false =>
        have hheld : (e₁, Task.hold release t₁ k) = (e', t') := by
          cases t₁ with
          | done a => simp [Machine.isDone] at hd
          | _ => exact hr
        cases hheld
        exact ih s' now e t₁ _ hs he hbody hd

/-- A task that ends with what another goes on from, followed by that other. -/
theorem Runs.hold {Q : β → σ → Prop} {release : σ → σ} {body : Task σ α} {k : α → Task σ β} {s : σ}
    (h : Runs o (fun a s => Runs o Q (k a) (release s)) body s) :
    Runs o Q (.hold release body k) s := by
  intro now e he
  have hbody := h now e he
  unfold Machine.advance
  generalize Machine.advance now body e = r at hbody
  obtain ⟨e₁, t₁⟩ := r
  cases hd : Machine.isDone t₁ with
  | true =>
    obtain ⟨a, rfl, ha⟩ := hbody.of_isDone hd
    exact ha now _ rfl
  | false =>
    cases t₁ with
    | done a => simp [Machine.isDone] at hd
    | _ => exact hbody.hold hd

/-- What a repetition goes on with after a round. -/
def afterRound (body : β → Task σ (β ⊕ γ)) (k : γ → Task σ α) : β ⊕ γ → Task σ α
  | .inl b => .loop b body k
  | .inr c => k c

/-- A repetition ends when every round, together with what follows it, does so provided that the
rounds of a lower rank do. -/
theorem Ends.loop {Q : α → σ → Prop} {body : β → Task σ (β ⊕ γ)} {k : γ → Task σ α}
    (J : β → σ → Prop) (rank : β → Nat)
    (hround : ∀ b s, J b s →
      (∀ b' s, (∀ s', o.may s s' → J b' s') → rank b' < rank b → Ends o Q (.loop b' body k) s) →
      Runs o Q ((body b).bind (afterRound body k)) s)
    (b : β) (s : σ) (hb : ∀ s', o.may s s' → J b s') : Ends o Q (.loop b body k) s := by
  induction hn : rank b using Nat.strong_induction_on generalizing b s with
  | _ n ih =>
    subst hn
    refine .move rfl (fun s' _ hnone => ?_) fun s' now e t' e' hs he hmove => ?_
    · simpa [Machine.resume] using hnone ⟨0⟩ 0
    · have hrun := hround b s' (hb s' hs) (fun b' s hb' hlt => ih _ hlt b' s hb' rfl) now e he
      have hr : Machine.advance now ((body b).bind (afterRound body k)) e = (e', t') :=
        Option.some.inj hmove
      rwa [hr] at hrun

/-- A task that meets its contract alone, followed by another that goes on from its end, runs to the
end of both. -/
theorem Meets.runs_bind {t : Task σ α} {K : α → Task σ β} {Q : β → σ → Prop} {w s : σ}
    (h : t.Meets (.alone o) (fun a _ s => Runs o Q (K a) s) w s) : Runs o Q (t.bind K) s := by
  induction t generalizing β Q w s with
  | done a => exact h
  | act f k ih =>
    intro now e he
    subst he
    exact ih _ (h now) now _ rfl
  | wait d ready k ih =>
    obtain ⟨v, -, rfl, hk⟩ := h
    intro now e he
    refine .move rfl (fun s' hs hnone => ?_) fun s' now e₁ t' e' hs he' hmove => ?_
    · refine (hk s' s' (he ▸ hs) rfl).1 fun t => ?_
      simpa [bind, Machine.advance, Machine.resume] using hnone t 0
    · simp only [bind, Machine.advance, Machine.resume, Option.map_eq_some_iff] at hmove
      obtain ⟨⟨b, s₁⟩, hready, hr⟩ := hmove
      subst he'
      have hrun := ih b ((hk _ _ (he ▸ hs) rfl).2 now b s₁ hready) now { e₁ with state := s₁ } rfl
      rwa [hr] at hrun
  | yield k ih =>
    obtain ⟨v, -, rfl, hk⟩ := h
    intro now e he
    refine .move rfl (fun s' hs hnone => ?_) fun s' now e₁ t' e' hs he' hmove => ?_
    · simpa [bind, Machine.advance, Machine.resume] using hnone ⟨0⟩ 0
    · simp only [bind, Machine.advance, Machine.resume, Option.some.injEq] at hmove
      have hrun := ih (hk _ _ (he ▸ hs) rfl) now e₁ he'
      rwa [hmove] at hrun
  | spawn child k _ ih =>
    obtain ⟨v, -, -, hk⟩ := h
    intro now e he
    exact ih _ (hk e.next) now _ he
  | cancel i k ih =>
    intro now e he
    exact ih h now _ he
  | hold release body k ihbody ihk =>
    refine Runs.hold ?_
    rw [← bind_done body]
    refine ihbody (h.2.mono fun b v s hb => ?_)
    intro now e he
    exact .done (he ▸ ihk b hb)
  | loop b body k ihbody ihk =>
    obtain ⟨J, rank, hfirst, hround⟩ := h
    intro now e he
    refine Ends.loop (fun b s => J b s s) rank (fun b s hb hlower => ?_) b _ ?_
    · -- a round ends in another round of lower rank, or with the result
      refine ihbody b ((hround b s s hb).mono fun r v s hr => ?_)
      cases r with
      | inl b' =>
        exact fun now e he =>
          hlower b' _ (fun s' hs => Contract.parks_alone.mp hr.1 s' (he ▸ hs)) (hr.2 trivial)
      | inr c => exact ihk c hr
    · exact fun s' hs => Contract.parks_alone.mp hfirst s' (he ▸ hs)

/-- What a task meets alone it comes to. -/
theorem Meets.runs {t : Task σ α} {Q : α → σ → Prop} {w s : σ}
    (h : t.Meets (.alone o) (fun a _ s => Q a s) w s) : Runs o Q t s := by
  rw [← bind_done t]
  refine Meets.runs_bind (h.mono fun a _ s ha => ?_)
  intro now e he
  exact .done (he ▸ ha)

end Task
end LanguageServer
