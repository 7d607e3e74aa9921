import Mathlib.Logic.Function.Basic
import LanguageServer.Task.Machine

/-! Tasks that play different parts. Each has a role that only it changes, and one invariant ties the
roles to the state; so a task can rely on what is its own, and answer for what it hands on. -/
namespace LanguageServer

/-- What is told of a state beyond the state itself, and the role of every task. -/
structure World (γ ρ : Type) where
  told : γ
  role : TaskId → ρ

/-- The terms on which tasks with roles share a state. -/
structure Pact (γ ρ σ : Type) where
  /-- The states that a world may be in at a wait. -/
  holds : World γ ρ → σ → Prop
  /-- The times that it may be in a world. -/
  shows : γ → Instant → Prop
  /-- How a task may add to what is told from one wait to the next. -/
  own : γ → γ → Prop
  /-- How the others may add to it while the task waits. -/
  others : γ → γ → Prop
  /-- The role of a number that no task has had yet. -/
  unborn : ρ
  /-- The role of a task that has ended or was dropped. -/
  gone : ρ
  /-- Whether others may drop a task with this role. -/
  isLoose : ρ → Bool

variable {γ ρ σ α β : Type}

namespace World

def cast (w : World γ ρ) (i : TaskId) (r : ρ) : World γ ρ :=
  { w with role := Function.update w.role i r }

def tell (w : World γ ρ) (g : γ) : World γ ρ := { w with told := g }

/-- What of a world another pact is about. -/
def map {δ ε : Type} (f : γ → δ) (r : ρ → ε) (w : World γ ρ) : World δ ε := ⟨f w.told, r ∘ w.role⟩

variable (w : World γ ρ) (i j : TaskId) (r r' : ρ) (g g' : γ)

@[simp] theorem told_cast : (w.cast i r).told = w.told := rfl

@[simp] theorem role_cast_self : (w.cast i r).role i = r := Function.update_self ..

theorem role_cast_of_ne {i j : TaskId} (h : j ≠ i) : (w.cast i r).role j = w.role j :=
  Function.update_of_ne h _ _

theorem role_cast : (w.cast i r).role j = if j = i then r else w.role j :=
  Function.update_apply ..

@[simp] theorem told_tell : (w.tell g).told = g := rfl

@[simp] theorem role_tell : (w.tell g).role = w.role := rfl

@[simp] theorem cast_role : w.cast i (w.role i) = w :=
  congrArg (World.mk w.told) (Function.update_eq_self i w.role)

@[simp] theorem cast_cast : (w.cast i r).cast i r' = w.cast i r' :=
  congrArg (World.mk w.told) (Function.update_idem ..)

@[simp] theorem tell_tell : (w.tell g).tell g' = w.tell g' := rfl

@[simp] theorem tell_told : w.tell w.told = w := rfl

theorem map_cast {δ ε : Type} (f : γ → δ) (h : ρ → ε) :
    (w.cast i r).map f h = (w.map f h).cast i (h r) :=
  congrArg (World.mk (f w.told)) (Function.comp_update h w.role i r)

theorem tell_cast : (w.cast i r).tell g = (w.tell g).cast i r := rfl

theorem cast_comm {i j : TaskId} (h : i ≠ j) : (w.cast i r).cast j r' = (w.cast j r').cast i r :=
  congrArg (World.mk w.told) (Function.update_comm h ..)

end World

namespace Pact

/-- A role that a task plays. -/
def IsLive (c : Pact γ ρ σ) (r : ρ) : Prop := r ≠ c.unborn ∧ r ≠ c.gone

/-- What a task may rely on when it moves on in a later world: its role is as it left it. -/
def Later (c : Pact γ ρ σ) (me : TaskId) (w v : World γ ρ) : Prop :=
  c.others w.told v.told ∧ v.role me = w.role me

/-- At a wait a task may change its role, and `P` is true of whatever the others make of it. -/
def Parks (c : Pact γ ρ σ) (me : TaskId) (w : World γ ρ) (s : σ) (P : World γ ρ → σ → Prop) :
    Prop :=
  ∃ g r, c.own w.told g ∧ c.IsLive r ∧ c.isLoose r = c.isLoose (w.role me) ∧
    c.holds ((w.tell g).cast me r) s ∧
    ∀ v s', c.Later me ((w.tell g).cast me r) v → c.holds v s' → P v s'

/-- `P` is true when a task moves on: at once if it has waited already, else after a wait. -/
def Turns (c : Pact γ ρ σ) (me : TaskId) (waited : Bool) (w : World γ ρ) (s : σ)
    (P : World γ ρ → σ → Prop) : Prop :=
  match waited with
  | true => P w s
  | false => c.Parks me w s P

/-- A task may end here. -/
def Rests (c : Pact γ ρ σ) (me : TaskId) (w : World γ ρ) (s : σ) : Prop :=
  ∃ g, c.own w.told g ∧ c.holds ((w.tell g).cast me c.gone) s

/-- What a task releases when it is dropped matters to nobody, or it is never dropped. -/
def Slips (c : Pact γ ρ σ) (me : TaskId) (w : World γ ρ) (release : σ → σ) : Prop :=
  c.isLoose (w.role me) = true → ∀ v s, c.holds v s → c.holds v (release s)

/-- A pact under which tasks can be put together. -/
structure IsFair (c : Pact γ ρ σ) : Prop where
  own_refl : ∀ g, c.own g g
  own_trans : ∀ e f g, c.own e f → c.own f g → c.own e g
  others_trans : ∀ e f g, c.others e f → c.others f g → c.others e g
  others_of_own : ∀ e f g, c.own e f → c.others f g → c.others e g
  shows_own : ∀ f g t, c.own f g → c.shows f t → c.shows g t
  gone_ne : c.gone ≠ c.unborn
  unborn_fast : c.isLoose c.unborn = false

variable {c : Pact γ ρ σ} {me : TaskId} {w : World γ ρ} {s : σ} {P R : World γ ρ → σ → Prop}

theorem Parks.mono (h : c.Parks me w s P) (hPR : ∀ v s, P v s → R v s) : c.Parks me w s R := by
  obtain ⟨g, r, hg, hr, hloose, hs, hP⟩ := h
  exact ⟨g, r, hg, hr, hloose, hs, fun v s' hv hs' => hPR v s' (hP v s' hv hs')⟩

theorem Turns.mono {waited : Bool} (h : c.Turns me waited w s P) (hPR : ∀ v s, P v s → R v s) :
    c.Turns me waited w s R := by
  cases waited with
  | true => exact hPR w s h
  | false => exact Parks.mono h hPR

end Pact

namespace Task

/-- The task `me` keeps to the pact from a world and a state on, and `Q` is true when it ends. It
begins by being called, or to move on from a wait if `waited`. -/
def Honors (c : Pact γ ρ σ) {α : Type} : TaskId → Bool → Task σ α →
    (α → World γ ρ → σ → Prop) → World γ ρ → σ → Prop
  | _, _, .done a, Q, w, s => Q a w s
  | me, _, .act f k, Q, w, s => ∀ t, c.shows w.told t → (k (f t s).1).Honors c me false Q w (f t s).2
  | me, waited, .wait _ ready k, Q, w, s => c.Turns me waited w s fun v s =>
    ∀ t b s', c.shows v.told t → ready t s = some (b, s') → (k b).Honors c me false Q v s'
  | me, waited, .yield k, Q, w, s => c.Turns me waited w s fun v s => k.Honors c me false Q v s
  | me, _, .spawn child k, Q, w, s => ∀ i, i ≠ me → w.role i = c.unborn →
    ∃ g r, c.own w.told g ∧ c.IsLive r ∧
      (∀ v s', c.Later i ((w.tell g).cast i r) v → c.holds v s' →
        child.Honors c i true (fun _ => c.Rests i) v s') ∧
      (k i).Honors c me false Q ((w.tell g).cast i r) s
  | me, _, .cancel i k, Q, w, s => i ≠ me ∧ (w.role i = c.gone ∨ c.isLoose (w.role i) = true) ∧
    k.Honors c me false Q (w.cast i c.gone) s
  | me, waited, .hold release body k, Q, w, s => c.Slips me w release ∧
    body.Honors c me waited (fun b v s => (k b).Honors c me false Q v (release s)) w s
  | me, waited, .loop b body k, Q, w, s => ∃ J : _ → World γ ρ → σ → Prop,
    -- others have their turn between two rounds, so what a round begins with is met anew
    c.Turns me waited w s (J b) ∧ ∀ b w s, J b w s → (body b).Honors c me false (fun r v s =>
      match r with
      | .inl b' => c.Parks me v s (J b')
      | .inr r => (k r).Honors c me false Q v s) w s

variable {c : Pact γ ρ σ} {me : TaskId} {w : World γ ρ} {s : σ} {waited : Bool}

theorem Honors.mono {t : Task σ α} {Q R : α → World γ ρ → σ → Prop}
    (h : t.Honors c me waited Q w s) (hQR : ∀ a w s, Q a w s → R a w s) :
    t.Honors c me waited R w s := by
  induction t generalizing me w s waited with
  | done a => exact hQR a w s h
  | act f k ih => exact fun t ht => ih _ (h t ht) hQR
  | wait d ready k ih =>
    exact Pact.Turns.mono h fun v s hv t b s' ht hb => ih b (hv t b s' ht hb) hQR
  | yield k ih => exact Pact.Turns.mono h fun v s hv => ih hv hQR
  | spawn child k _ ih =>
    intro i hi hunborn
    obtain ⟨g, r, hg, hr, hchild, hk⟩ := h i hi hunborn
    exact ⟨g, r, hg, hr, hchild, ih i hk hQR⟩
  | cancel i k ih => exact ⟨h.1, h.2.1, ih h.2.2 hQR⟩
  | hold release body k ihbody ihk => exact ⟨h.1, ihbody h.2 fun b v s hb => ihk b hb hQR⟩
  | loop b body k ihbody ihk =>
    obtain ⟨J, hfirst, hround⟩ := h
    refine ⟨J, hfirst, fun b w s hb => ihbody b (hround b w s hb) fun r v s hr => ?_⟩
    cases r with
    | inl b' => exact hr
    | inr r => exact ihk r hr hQR

theorem honorsFrom_bind (t : Task σ α) (g : α → Task σ β) (Q : β → World γ ρ → σ → Prop)
    (hwaited : Machine.isDone t = false ∨ waited = false) :
    (t.bind g).Honors c me waited Q w s ↔
      t.Honors c me waited (fun a v s => (g a).Honors c me false Q v s) w s := by
  induction t generalizing w s waited with
  | done a => cases hwaited.resolve_left (by simp [Machine.isDone]); rfl
  | act f k ih => simp only [bind, Honors, ih _ _ (.inr rfl)]
  | wait d ready k ih => simp only [bind, Honors, ih _ _ (.inr rfl)]
  | yield k ih => simp only [bind, Honors, ih _ (.inr rfl)]
  | spawn child k _ ih => simp only [bind, Honors, ih _ _ (.inr rfl)]
  | cancel i k ih => simp only [bind, Honors, ih _ (.inr rfl)]
  | hold release body k _ ihk => simp only [bind, Honors, ihk _ _ (.inr rfl)]
  | loop b body k _ ihk => simp only [bind, Honors, ihk _ _ (.inr rfl)]

/-- A task followed by another honors what the first honors when its end is where the second
starts. -/
@[simp] theorem honors_bind (t : Task σ α) (g : α → Task σ β) (Q : β → World γ ρ → σ → Prop) :
    (t.bind g).Honors c me false Q w s ↔
      t.Honors c me false (fun a v s => (g a).Honors c me false Q v s) w s :=
  honorsFrom_bind t g Q (.inr rfl)

@[simp] theorem honors_then (t : Task σ α) (g : α → Task σ β) (Q : β → World γ ρ → σ → Prop) :
    (t >>= g).Honors c me false Q w s ↔
      t.Honors c me false (fun a v s => (g a).Honors c me false Q v s) w s :=
  honorsFrom_bind t g Q (.inr rfl)

theorem Honors.bind {t : Task σ α} {g : α → Task σ β} {Q : β → World γ ρ → σ → Prop}
    (h : t.Honors c me waited (fun a v s => ∀ waited, (g a).Honors c me waited Q v s) w s) :
    (t.bind g).Honors c me waited Q w s := by
  cases t with
  | done a => exact h waited
  | _ => exact (honorsFrom_bind _ g Q (.inl rfl)).mpr (h.mono fun _ _ _ hg => hg false)

theorem Honors.bind_of_done {t : Task σ α} {g : α → Task σ β} {Q : β → World γ ρ → σ → Prop}
    (hdone : ∀ a, t = .done a → (g a).Honors c me waited Q w s)
    (h : t.Honors c me waited (fun a v s => (g a).Honors c me false Q v s) w s) :
    (t.bind g).Honors c me waited Q w s := by
  cases t with
  | done a => exact hdone a rfl
  | _ => exact (honorsFrom_bind _ g Q (.inl rfl)).mpr h

@[simp] theorem honors_done (a : α) (Q : α → World γ ρ → σ → Prop) :
    (done a : Task σ α).Honors c me waited Q w s ↔ Q a w s := Iff.rfl

@[simp] theorem honors_pure (a : α) (Q : α → World γ ρ → σ → Prop) :
    (pure a : Task σ α).Honors c me waited Q w s ↔ Q a w s := Iff.rfl

theorem honors_read {f : σ → α} {Q : α → World γ ρ → σ → Prop} (h : Q (f s) w s) :
    (read f).Honors c me waited Q w s := fun _ _ => h

theorem honors_modify {f : σ → σ} {Q : Unit → World γ ρ → σ → Prop} (h : Q () w (f s)) :
    (modify f).Honors c me waited Q w s := fun _ _ => h

theorem honors_update {f : σ → α × σ} {Q : α → World γ ρ → σ → Prop} (h : Q (f s).1 w (f s).2) :
    (update f).Honors c me waited Q w s := fun _ _ => h

theorem honors_await {ready : σ → Option (α × σ)} {Q : α → World γ ρ → σ → Prop}
    (h : c.Turns me waited w s fun v s => ∀ a s', ready s = some (a, s') → Q a v s') :
    (await ready).Honors c me waited Q w s :=
  Pact.Turns.mono h fun _ _ hv _ a s' _ ha => hv a s' ha

theorem honors_awaitFor {span : Duration} {ready : σ → Option (α × σ)}
    {Q : Option α → World γ ρ → σ → Prop}
    (h : ∀ start, c.shows w.told start → c.Parks me w s fun v s =>
      (∀ now, c.shows v.told now → start.after span ≤ now → ready s = none → Q none v s) ∧
        ∀ a s', ready s = some (a, s') → Q (some a) v s') :
    (awaitFor span ready).Honors c me waited Q w s := by
  intro start hstart
  refine (h start hstart).mono fun v s hv now b s' hnow hb => ?_
  obtain ⟨a, rfl, hready⟩ | ⟨rfl, rfl, hnone, hlate⟩ := given_or_late hb
  · exact hv.2 a s' hready
  · exact hv.1 now hnow hlate hnone

section Zoom

variable {τ : Type} {l : Lens σ τ}

theorem honors_zoom_update {f : τ → α × τ} {Q : α → World γ ρ → σ → Prop}
    (h : Q (f (l.get s)).1 w (l.set (f (l.get s)).2 s)) :
    ((update f).zoom l).Honors c me waited Q w s := fun _ _ => h

theorem honors_zoom_modify {f : τ → τ} {Q : Unit → World γ ρ → σ → Prop}
    (h : Q () w (l.set (f (l.get s)) s)) : ((modify f).zoom l).Honors c me waited Q w s := fun _ _ => h

theorem honors_zoom_read {f : τ → α} {Q : α → World γ ρ → σ → Prop}
    (h : Q (f (l.get s)) w (l.set (l.get s) s)) :
    ((read f).zoom l).Honors c me waited Q w s := fun _ _ => h

theorem honors_zoom_awaitFor {span : Duration} {ready : τ → Option (α × τ)}
    {Q : Option α → World γ ρ → σ → Prop}
    (h : ∀ start, c.shows w.told start → c.Parks me w (l.set (l.get s) s) fun v s =>
      (∀ now, c.shows v.told now → start.after span ≤ now → ready (l.get s) = none →
        Q none v (l.set (l.get s) s)) ∧
      ∀ a p, ready (l.get s) = some (a, p) → Q (some a) v (l.set p s)) :
    ((awaitFor span ready).zoom l).Honors c me waited Q w s := by
  intro start hstart
  refine (h start hstart).mono fun v s hv now b s' hnow hb => ?_
  obtain ⟨⟨_, p⟩, hp, heq⟩ := Option.map_eq_some_iff.mp hb
  cases heq
  obtain ⟨a, rfl, hready⟩ | ⟨rfl, rfl, hnone, hlate⟩ := given_or_late hp
  · exact hv.2 a p hready
  · exact hv.1 now hnow hlate hnone

end Zoom

end Task
end LanguageServer
