import LanguageServer.Proofs.Task.Frame

/-! One move of a task, read off the piece of it that moves: under a hold, at a lock, and in a
machine. -/
namespace LanguageServer

variable {σ α β : Type}

namespace Machine

variable {now : Instant} {e : Effects σ} {raised : σ → Bool} {set : Bool → σ → σ}
  {body : Task σ α} {k : α → Task σ β} {m n : Machine σ} {i : TaskId}

/-- A lock that is free is taken, and the body goes on to its first wait. -/
theorem resume_exclusive (h : raised e.state = false) :
    resume now ((Task.exclusive raised set body).bind k) e =
      some (past now (set false) k (advance now body { e with state := set true e.state })) := by
  have hready : (if !raised e.state then some ((), e.state) else none) = some ((), e.state) := by
    simp [h]
  show (Option.map _ (if !raised e.state then some ((), e.state) else none)) = _
  rw [hready]
  exact congrArg some (advance_hold _)

/-- Nobody moves at a lock that is taken. -/
theorem resume_exclusive_raised (h : raised e.state = true) :
    resume now ((Task.exclusive raised set body).bind k) e = none := by
  have hready : (if !raised e.state then some ((), e.state) else none) = none := by simp [h]
  show (Option.map _ (if !raised e.state then some ((), e.state) else none)) = _
  rw [hready]
  rfl

theorem isSome_resume_exclusive :
    (resume now ((Task.exclusive raised set body).bind k) e).isSome = !raised e.state := by
  cases h : raised e.state with
  | true => rw [resume_exclusive_raised h]; rfl
  | false => rw [resume_exclusive h]; rfl

theorem step?_eq_some : m.step? i = some n ↔ ∃ t r, m.tasks.lookup i = some t ∧
    resume m.now t m.effects = some r ∧ m.settle i r = n := by
  simp [step?, Option.bind_eq_some_iff]

theorem mem_of_lookup {t : Task σ Unit} (h : m.tasks.lookup i = some t) : (i, t) ∈ m.tasks := by
  obtain ⟨before, after, htasks, -⟩ := List.lookup_eq_some_iff.mp h
  simp [htasks]

/-- The tasks after a move: those that were not dropped, the one that moved unless it has ended, and
the new ones. -/
theorem mem_settle {t : Task σ Unit} (hi : i ∉ e.cancelled) (p : TaskId × Task σ Unit) :
    p ∈ (m.settle i (e, t)).tasks ↔ (p ∈ m.tasks ∧ p.1 ≠ i ∧ p.1 ∉ e.cancelled) ∨
      (p = (i, t) ∧ isDone t = false) ∨ p ∈ e.spawned := by
  obtain ⟨others, htasks, -, hothers⟩ := m.tasks_settle t (by simpa using hi)
  rw [htasks, List.append_assoc, List.mem_append, List.mem_append, hothers]
  cases hdone : isDone t <;> simp

/-- A move that drops nobody leaves the state as its task does. -/
theorem state_settle {t : Task σ Unit} (h : e.cancelled = []) : (m.settle i (e, t)).state = e.state := by
  have hnone : (m.tasks.filter fun _ => false) = [] := List.filter_eq_nil_iff.mpr fun _ _ => nofun
  simp [settle, List.partition_eq_filter_filter, h, hnone]

end Machine

/-- A wait with a limit, from when it has looked at the clock. -/
def Task.awaitedSince (span : Duration) (ready : σ → Option (α × σ)) (start : Instant) :
    Task σ (Option α) :=
  .wait (some (start.after span)) (fun t s => match ready s with
    | some (a, s) => some (some a, s)
    | none => if start.after span ≤ t then some (none, s) else none) .done

/-- Such a wait goes on with what there is, or with nothing when it has lasted long enough. -/
theorem Machine.resume_awaitedSince {now start : Instant} {span : Duration}
    {ready : σ → Option (α × σ)} {k : Option α → Task σ β} {e : Machine.Effects σ}
    {r : Machine.Effects σ × Task σ β}
    (h : Machine.resume now ((Task.awaitedSince span ready start).bind k) e = some r) :
    (∃ a s, ready e.state = some (a, s) ∧ r = Machine.advance now (k (some a)) { e with state := s }) ∨
      r = Machine.advance now (k none) e := by
  obtain ⟨⟨b, s⟩, hready, rfl⟩ := Option.map_eq_some_iff.mp h
  obtain ⟨a, rfl, hgiven⟩ | ⟨rfl, rfl, -⟩ := Task.given_or_late (show _ = some (b, s) from hready)
  · exact .inl ⟨a, s, hgiven, rfl⟩
  · exact .inr rfl

/-- Once it has lasted long enough, such a wait goes on. -/
theorem Machine.isSome_resume_late {now start : Instant} {span : Duration}
    {ready : σ → Option (α × σ)} {k : Option α → Task σ β} {e : Machine.Effects σ}
    (h : start.after span ≤ now) :
    (Machine.resume now ((Task.awaitedSince span ready start).bind k) e).isSome = true := by
  rw [Task.awaitedSince, Task.bind, Machine.resume, Option.isSome_map]
  cases ready e.state with
  | some => rfl
  | none =>
    dsimp only
    rw [if_pos h]
    rfl

end LanguageServer

/-! Machines whose tasks belong to someone, who answers for what they change. What a task spawns
belongs to whoever it belongs to; what a dropped task releases nobody has to answer for. -/
namespace LanguageServer

variable {ι σ α β : Type}

namespace Task

/-- From whatever state the task goes on, it makes no change but those of `G`, spawns tasks that do the
same, releases by `R`, and ends with a value that satisfies `P`. -/
def Answers (G R : σ → σ → Prop) {α : Type} : Task σ α → (α → Prop) → Prop
  | .done a, P => P a
  | .act f k, P => ∀ t s, G s (f t s).2 ∧ (k (f t s).1).Answers G R P
  | .wait _ ready k, P => ∀ t s b s', ready t s = some (b, s') → G s s' ∧ (k b).Answers G R P
  | .yield k, P => k.Answers G R P
  | .spawn child k, P => child.Answers G R (fun _ => True) ∧ ∀ i, (k i).Answers G R P
  | .cancel _ k, P => k.Answers G R P
  | .hold release body k, P => (∀ s, R s (release s)) ∧ body.Answers G R fun b => (k b).Answers G R P
  | .loop _ body k, P => ∀ b, (body b).Answers G R fun r =>
    match r with
    | .inl _ => True
    | .inr c => (k c).Answers G R P

variable {G R : σ → σ → Prop} {P : α → Prop} {Q : β → Prop}

theorem Answers.mono {H : σ → σ → Prop} {t : Task σ α} (h : t.Answers G R P)
    (hGH : ∀ s s', G s s' → H s s') {P' : α → Prop} (hP : ∀ a, P a → P' a) : t.Answers H R P' := by
  induction t with
  | done a => exact hP a h
  | act f k ih => exact fun t s => ⟨hGH _ _ (h t s).1, ih _ (h t s).2 hP⟩
  | wait d ready k ih =>
    exact fun t s b s' hb => ⟨hGH _ _ (h t s b s' hb).1, ih b (h t s b s' hb).2 hP⟩
  | yield k ih => exact ih h hP
  | spawn child k ihchild ih => exact ⟨ihchild h.1 fun _ => id, fun i => ih i (h.2 i) hP⟩
  | cancel i k ih => exact ih h hP
  | hold release body k ihbody ihk => exact ⟨h.1, ihbody h.2 fun b hb => ihk b hb hP⟩
  | loop b body k ihbody ihk =>
    refine fun b => ihbody b (h b) fun r hr => ?_
    cases r with
    | inl _ => trivial
    | inr c => exact ihk c hr hP

theorem Answers.bind {t : Task σ α} {g : α → Task σ β} (ht : t.Answers G R P)
    (hg : ∀ a, P a → (g a).Answers G R Q) : (t.bind g).Answers G R Q := by
  induction t with
  | done a => exact hg a ht
  | act f k ih => exact fun t s => ⟨(ht t s).1, ih _ (ht t s).2 hg⟩
  | wait d ready k ih =>
    exact fun t s b s' hb => ⟨(ht t s b s' hb).1, ih b (ht t s b s' hb).2 hg⟩
  | yield k ih => exact ih ht hg
  | spawn child k _ ih => exact ⟨ht.1, fun i => ih i (ht.2 i) hg⟩
  | cancel i k ih => exact ih ht hg
  | hold release body k _ ihk => exact ⟨ht.1, ht.2.mono (fun _ _ h => h) fun b hb => ihk b hb hg⟩
  | loop b body k _ ihk =>
    refine fun b => (ht b).mono (fun _ _ h => h) fun r hr => ?_
    cases r with
    | inl _ => trivial
    | inr c => exact ihk c hr hg

theorem answers_then {t : Task σ α} {g : α → Task σ β} (ht : t.Answers G R P)
    (hg : ∀ a, P a → (g a).Answers G R Q) : (t >>= g).Answers G R Q := ht.bind hg

/-- A task that makes no change but those of `R` may belong to anyone who answers for these. -/
theorem Keeps.answers (hR : ∀ s s', R s s' → G s s') {t : Task σ α} (ht : t.Keeps R)
    (hP : t.Gives P) : t.Answers G R P := by
  induction t with
  | done a => exact hP
  | act f k ih => exact fun t s => ⟨hR _ _ (ht.1 t s), ih _ (ht.2 _) (hP t s)⟩
  | wait d ready k ih =>
    exact fun t s b s' hb => ⟨hR _ _ (ht.1 t s b s' hb), ih b (ht.2 b) (hP t s b s' hb)⟩
  | yield k ih => exact ih ht hP
  | spawn child k ihchild ih => exact ⟨ihchild ht.1 (gives_true _), fun i => ih i (ht.2 i) (hP i)⟩
  | cancel i k ih => exact ih ht hP
  | hold release body k ihbody ihk =>
    refine ⟨ht.1, ihbody ht.2.1 (Gives.mono hP fun b hb => ihk b (ht.2.2 b) hb)⟩
  | loop b body k ihbody ihk =>
    refine fun b => ihbody b (ht.1 b) ((hP b).mono fun r hr => ?_)
    cases r with
    | inl _ => trivial
    | inr c => exact ihk c (ht.2 c) hr

theorem answers_any (t : Task σ α) :
    t.Answers (fun _ _ => True) (fun _ _ => True) fun _ => True := by
  induction t with
  | done a => trivial
  | act f k ih => exact fun t s => ⟨trivial, ih _⟩
  | wait d ready k ih => exact fun t s b s' _ => ⟨trivial, ih b⟩
  | yield k ih => exact ih
  | spawn child k ihchild ih => exact ⟨ihchild, ih⟩
  | cancel i k ih => exact ih
  | hold release body k ihbody ihk =>
    exact ⟨fun _ => trivial, ihbody.mono (fun _ _ h => h) fun b _ => ihk b⟩
  | loop b body k ihbody ihk =>
    refine fun b => (ihbody b).mono (fun _ _ h => h) fun r _ => ?_
    cases r with
    | inl _ => trivial
    | inr c => exact ihk c

section Releasing

variable (hrefl : ∀ s, R s s) (htrans : ∀ s s' s'', R s s' → R s' s'' → R s s'')
include hrefl htrans

/-- Dropping a task is one of the changes that it releases by. -/
theorem Answers.release {t : Task σ α} (h : t.Answers G R P) (s : σ) :
    R s (Machine.release t s) := by
  induction t with
  | hold unlock body k ihbody _ => exact htrans _ _ _ (ihbody h.2) (h.1 _)
  | _ => exact hrefl s

theorem answers_releaseAll {dropped : List (TaskId × Task σ Unit)}
    (h : ∀ p ∈ dropped, ∃ G, p.2.Answers G R fun _ => True) (s : σ) :
    R s (dropped.foldl (fun s t => Machine.release t.2 s) s) := by
  induction dropped generalizing s with
  | nil => exact hrefl s
  | cons p dropped ih =>
    obtain ⟨⟨_, hp⟩, hdropped⟩ := List.forall_mem_cons.mp h
    exact htrans _ _ _ (hp.release hrefl htrans s) (ih hdropped _)

end Releasing

end Task

namespace Machine

variable {G R : σ → σ → Prop} {P : α → Prop} {Q : β → Prop}

/-- What a move of a task brings about: a change of `G`, and new tasks that answer as it does. -/
structure Brings (G R : σ → σ → Prop) (e e' : Effects σ) : Prop where
  change : G e.state e'.state
  next : e.next ≤ e'.next
  spawned : ∀ p ∈ e'.spawned,
    p ∈ e.spawned ∨ (e.next ≤ p.1 ∧ p.1 < e'.next) ∧ p.2.Answers G R fun _ => True

/-- A change of the state, and nothing else. -/
theorem Brings.of_change {e : Effects σ} {s : σ} (h : G e.state s) :
    Brings G R e { e with state := s } := ⟨h, Nat.le_refl _, fun _ => .inl⟩

section Moving

variable (hrefl : ∀ s, G s s) (htrans : ∀ s s' s'', G s s' → G s' s'' → G s s'')
  (hR : ∀ s s', R s s' → G s s') {now : Instant}

include htrans

theorem Brings.trans {e e' e'' : Effects σ} (h : Brings G R e e') (h' : Brings G R e' e'') :
    Brings G R e e'' where
  change := htrans _ _ _ h.change h'.change
  next := Nat.le_trans h.next h'.next
  spawned p hp := by
    obtain hp | ⟨hnew, hp⟩ := h'.spawned p hp
    · refine (h.spawned p hp).imp_right fun hp => ⟨⟨hp.1.1, ?_⟩, hp.2⟩
      exact Nat.lt_of_lt_of_le hp.1.2 h'.next
    · exact .inr ⟨⟨Nat.le_trans h.next hnew.1, hnew.2⟩, hp⟩

include hR

/-- A task under a hold whose body has moved. -/
theorem brings_past {release : σ → σ} {k : α → Task σ β} {e : Effects σ} {r : Effects σ × Task σ α}
    (hrelease : ∀ s, R s (release s))
    (hafter : ∀ a e, P a →
      Brings G R e (advance now (k a) e).1 ∧ (advance now (k a) e).2.Answers G R Q)
    (hk : ∀ a, P a → (k a).Answers G R Q) (hr : Brings G R e r.1) (hbody : r.2.Answers G R P) :
    Brings G R e (past now release k r).1 ∧ (past now release k r).2.Answers G R Q := by
  obtain ⟨e', t⟩ := r
  cases hdone : isDone t with
  | true =>
    cases t with
    | done a =>
      obtain ⟨hbrings, hanswers⟩ := hafter a { e' with state := release e'.state } hbody
      have hreleased : Brings G R e' { e' with state := release e'.state } :=
        .of_change (hR _ _ (hrelease _))
      exact ⟨hr.trans htrans (hreleased.trans htrans hbrings), hanswers⟩
    | _ => cases hdone
  | false =>
    rw [past_waiting hdone]
    exact ⟨hr, hrelease, hbody.mono (fun _ _ h => h) hk⟩

include hrefl

theorem brings_advance {t : Task σ α} (ht : t.Answers G R P) (e : Effects σ) :
    Brings G R e (advance now t e).1 ∧ (advance now t e).2.Answers G R P := by
  have hsame (e : Effects σ) : Brings G R e e := .of_change (hrefl _)
  induction t generalizing e with
  | done a => exact ⟨hsame e, ht⟩
  | act f k ih =>
    obtain ⟨hchange, hk⟩ := ht now e.state
    obtain ⟨hbrings, hanswers⟩ := ih _ hk { e with state := (f now e.state).2 }
    exact ⟨(Brings.of_change hchange).trans htrans hbrings, hanswers⟩
  | wait d ready k _ => exact ⟨hsame e, ht⟩
  | yield k _ => exact ⟨hsame e, ht⟩
  | spawn child k _ ih =>
    have hchild : Brings G R e
        { e with next := e.next + 1, spawned := e.spawned ++ [(e.next, child)] } := by
      refine ⟨hrefl _, Nat.le_succ _, fun p hp => (List.mem_append.mp hp).imp_right fun hp => ?_⟩
      cases List.mem_singleton.mp hp
      exact ⟨⟨Nat.le_refl _, Nat.lt_succ_self _⟩, ht.1⟩
    obtain ⟨hbrings, hanswers⟩ := ih e.next (ht.2 _) _
    exact ⟨hchild.trans htrans hbrings, hanswers⟩
  | cancel i k ih =>
    have hdropped : Brings G R e
        { e with spawned := e.spawned.filter (·.1 ≠ i), cancelled := i :: e.cancelled } :=
      ⟨hrefl _, Nat.le_refl _, fun p hp => .inl (List.mem_filter.mp hp).1⟩
    obtain ⟨hbrings, hanswers⟩ := ih ht _
    exact ⟨hdropped.trans htrans hbrings, hanswers⟩
  | hold release body k ihbody ihk =>
    rw [advance_hold]
    obtain ⟨hbrings, hbody⟩ := ihbody ht.2 e
    exact brings_past htrans hR ht.1 (fun b e hb => ihk b hb e) (fun _ hb => hb) hbrings hbody
  | loop b body k _ _ => exact ⟨hsame e, ht⟩

theorem brings_resume {t : Task σ α} (ht : t.Answers G R P) {e : Effects σ}
    {r : Effects σ × Task σ α} (hr : resume now t e = some r) :
    Brings G R e r.1 ∧ r.2.Answers G R P := by
  induction t generalizing e with
  | done a => cases hr
  | wait d ready k _ =>
    obtain ⟨⟨b, s⟩, hready, rfl⟩ := Option.map_eq_some_iff.mp hr
    obtain ⟨hchange, hk⟩ := ht now e.state b s hready
    obtain ⟨hbrings, hanswers⟩ := brings_advance hrefl htrans hR hk { e with state := s }
    exact ⟨(Brings.of_change hchange).trans htrans hbrings, hanswers⟩
  | hold release body k ihbody _ =>
    rw [resume_hold] at hr
    obtain ⟨r, hbody, rfl⟩ := Option.map_eq_some_iff.mp hr
    obtain ⟨hbrings, hanswers⟩ := ihbody ht.2 hbody
    exact brings_past htrans hR ht.1 (fun b e hb => brings_advance hrefl htrans hR hb e)
      (fun _ hb => hb) hbrings hanswers
  | loop b body k _ _ =>
    cases hr
    refine brings_advance hrefl htrans hR ((ht b).bind fun r hr => ?_) e
    cases r with
    | inl b => exact ht
    | inr c => exact hr
  | act f k =>
    cases hr
    exact brings_advance (t := .act f k) hrefl htrans hR ht e
  | yield k =>
    cases hr
    exact brings_advance (t := k) hrefl htrans hR ht e
  | spawn child k =>
    cases hr
    exact brings_advance (t := .spawn child k) hrefl htrans hR ht e
  | cancel i k =>
    cases hr
    exact brings_advance (t := .cancel i k) hrefl htrans hR ht e

end Moving

theorem mem_of_mem_settle (m : Machine σ) {id : TaskId} {e : Effects σ} {t : Task σ Unit}
    {p : TaskId × Task σ Unit} (h : p ∈ (m.settle id (e, t)).tasks) :
    p ∈ m.tasks ∨ p = (id, t) ∨ p ∈ e.spawned := by
  simp only [settle, List.partition_eq_filter_filter, List.mem_append, List.mem_filter] at h
  obtain (h | h) | h := h
  · exact .inl h.1.1
  · split at h
    · cases h
    · exact .inr (.inl (List.mem_singleton.mp h))
  · exact .inr (.inr h)

/-- Every task answers for its changes as its owner has to. -/
structure Owned (owner : TaskId → ι) (G : ι → σ → σ → Prop) (R : σ → σ → Prop) (m : Machine σ) :
    Prop where
  below : ∀ p ∈ m.tasks, p.1 < m.next
  answers : ∀ p ∈ m.tasks, p.2.Answers (G (owner p.1)) R fun _ => True

/-- The owners after a move: what the task has brought in belongs to its own owner. -/
def inherit (owner : TaskId → ι) (next id : TaskId) (i : TaskId) : ι :=
  if i < next then owner i else owner id

namespace Owned

variable {owner : TaskId → ι} {G : ι → σ → σ → Prop} {m n : Machine σ} {id : TaskId}

theorem start (s : σ) : Owned owner G R (Machine.start s) :=
  ⟨fun _ hp => absurd hp List.not_mem_nil, fun _ hp => absurd hp List.not_mem_nil⟩

theorem spawn (h : Owned owner G R m) {o : ι} {t : Task σ Unit}
    (ht : t.Answers (G o) R fun _ => True) : Owned (Function.update owner m.next o) G R (m.spawn t) where
  below p hp := by
    obtain hp | hp := List.mem_append.mp hp
    · exact Nat.lt_succ_of_lt (h.below p hp)
    · cases List.mem_singleton.mp hp
      exact Nat.lt_succ_self _
  answers p hp := by
    obtain hp | hp := List.mem_append.mp hp
    · rw [Function.update_of_ne (Nat.ne_of_lt (h.below p hp))]
      exact h.answers p hp
    · cases List.mem_singleton.mp hp
      rw [Function.update_self]
      exact ht

/-- The state may be changed by what is no task. -/
theorem others (h : Owned owner G R m) (s : σ) (t : Instant) :
    Owned owner G R { m with state := s, now := t } := ⟨h.below, h.answers⟩

/-- A move changes the state as the owner of the task has to answer for, and all tasks still answer. -/
theorem step (h : Owned owner G R m) (hrefl : ∀ o s, G o s s)
    (htrans : ∀ o s s' s'', G o s s' → G o s' s'' → G o s s'')
    (hfree : ∀ s, R s s) (hfrees : ∀ s s' s'', R s s' → R s' s'' → R s s'')
    (hR : ∀ o s s', R s s' → G o s s') (hstep : m.step? id = some n) :
    G (owner id) m.state n.state ∧ Owned (inherit owner m.next id) G R n := by
  obtain ⟨t, ⟨e, t'⟩, hlookup, hresume, rfl⟩ := step?_eq_some.mp hstep
  have hmem := mem_of_lookup hlookup
  obtain ⟨hbrings, ht'⟩ := brings_resume (hrefl _) (htrans _) (hR _) (h.answers _ hmem) hresume
  have hreleased : R e.state (m.settle id (e, t')).state := by
    simp only [settle, List.partition_eq_filter_filter]
    refine Task.answers_releaseAll hfree hfrees (fun p hp => ⟨_, h.answers p ?_⟩) _
    exact (List.mem_filter.mp (List.mem_filter.mp hp).1).1
  refine ⟨htrans _ _ _ _ hbrings.change (hR _ _ _ hreleased), ⟨fun p hp => ?_, fun p hp => ?_⟩⟩
  · obtain hp | rfl | hp := m.mem_of_mem_settle hp
    · exact Nat.lt_of_lt_of_le (h.below p hp) hbrings.next
    · exact Nat.lt_of_lt_of_le (h.below (id, t) hmem) hbrings.next
    · obtain hp | ⟨hnew, -⟩ := hbrings.spawned p hp
      · cases hp
      · exact hnew.2
  · have hold {q : TaskId × Task σ Unit} (hq : q ∈ m.tasks) :
        inherit owner m.next id q.1 = owner q.1 := if_pos (h.below q hq)
    obtain hp | rfl | hp := m.mem_of_mem_settle hp
    · exact hold hp ▸ h.answers p hp
    · exact hold hmem ▸ ht'
    · obtain hp | ⟨hnew, hp⟩ := hbrings.spawned p hp
      · cases hp
      · have hnew : inherit owner m.next id p.1 = owner id := if_neg (Nat.not_lt.mpr hnew.1)
        exact hnew ▸ hp

end Owned

theorem below_step {m n : Machine σ} (h : ∀ p ∈ m.tasks, p.1 < m.next) {id : TaskId}
    (hstep : m.step? id = some n) : ∀ p ∈ n.tasks, p.1 < n.next := by
  have howned : Owned (fun _ => ()) (fun _ _ _ => True) (fun _ _ => True) m :=
    ⟨h, fun p _ => p.2.answers_any⟩
  obtain ⟨-, hn⟩ := howned.step (fun _ _ => trivial) (fun _ _ _ _ _ _ => trivial)
    (fun _ => trivial) (fun _ _ _ _ _ => trivial) (fun _ _ _ _ => trivial) hstep
  exact hn.below

/-- A task that has just joined can be found. -/
theorem lookup_spawn {m : Machine σ} (h : ∀ p ∈ m.tasks, p.1 < m.next) (t : Task σ Unit) :
    (m.spawn t).tasks.lookup m.next = some t := by
  have hnone : m.tasks.lookup m.next = none := by
    refine List.lookup_eq_none_iff.mpr fun p hp => ?_
    simpa using (Nat.ne_of_lt (h p hp)).symm
  simp [spawn, List.lookup_append, hnone]

end Machine
end LanguageServer
