import LanguageServer.Proofs.Task.Guests
import LanguageServer.Proofs.Task.Owners

/-! One call of a task among others: it was called at some time and has come to where it waits, or to
its end. A call of two tasks in sequence is a call of the first and then one of the second. -/
namespace LanguageServer

variable {σ α β : Type}

namespace Machine

variable {now : Instant} {e : Effects σ}

/-- Where a task in front of another is after a move: in the second once the first has ended. -/
def onward (now : Instant) (k : α → Task σ β) : Effects σ × Task σ α → Effects σ × Task σ β
  | (e, .done a) => advance now (k a) e
  | (e, waiting) => (e, waiting.bind k)

theorem onward_waiting {k : α → Task σ β} {t : Task σ α} (h : isDone t = false) :
    onward now k (e, t) = (e, t.bind k) := by
  cases t <;> first | rfl | cases h

/-- After a hold that another task follows. -/
theorem onward_past {γ : Type} (release : σ → σ) (k : γ → Task σ α) (g : α → Task σ β)
    (hk : ∀ a e, advance now ((k a).bind g) e = onward now g (advance now (k a) e))
    (r : Effects σ × Task σ γ) :
    onward now g (past now release k r) = past now release (fun b => (k b).bind g) r := by
  obtain ⟨e, t⟩ := r
  cases t with
  | done a => exact (hk a _).symm
  | _ => rfl

theorem advance_bind (t : Task σ α) (g : α → Task σ β) :
    advance now (t.bind g) e = onward now g (advance now t e) := by
  induction t generalizing e with
  | done a => rfl
  | act f k ih => exact ih _ g
  | wait d ready k ih => rfl
  | yield k ih => rfl
  | spawn child k _ ih => exact ih _ g
  | cancel i k ih => exact ih g
  | hold release body k _ ihk =>
    simp only [Task.bind, advance_hold]
    exact (onward_past release k g (fun a e => ihk a g) _).symm
  | loop b body k _ _ => rfl

theorem resume_bind {t : Task σ α} (ht : isDone t = false) (g : α → Task σ β) :
    resume now (t.bind g) e = (resume now t e).map (onward now g) := by
  cases t with
  | done a => cases ht
  | act f k => exact congrArg some (advance_bind (.act f k) g)
  | wait d ready k =>
    simp only [Task.bind, resume, Option.map_map]
    refine congrArg (fun f => (ready now e.state).map f) (funext fun r => ?_)
    exact advance_bind (k r.1) g
  | yield k => exact congrArg some (advance_bind k g)
  | spawn child k => exact congrArg some (advance_bind (.spawn child k) g)
  | cancel i k => exact congrArg some (advance_bind (.cancel i k) g)
  | hold release body k =>
    simp only [Task.bind, resume_hold, Option.map_map]
    refine congrArg (fun f => (resume now body e).map f) (funext fun r => ?_)
    exact (onward_past release k g (fun a e => advance_bind (k a) g) r).symm
  | loop b body k =>
    refine congrArg some (Eq.trans ?_ (advance_bind _ g))
    rw [Task.bind_assoc]
    refine congrArg (fun h => advance now ((body b).bind h) e) (funext fun r => ?_)
    cases r <;> rfl

end Machine

namespace Task

/-- Where a call has come to, in which state and when. Between two moves others change the state within
what they may do. -/
inductive Called (may : σ → σ → Prop) (t : Task σ α) (s : σ) (now : Instant) :
    Task σ α → σ → Instant → Prop
  | call {e e' : Machine.Effects σ} {u : Task σ α} : e.state = s → Machine.advance now t e = (e', u) →
    Called may t s now u e'.state now
  | move {u v : Task σ α} {s' : σ} {n n' : Instant} {e e' : Machine.Effects σ} :
    Called may t s now u s' n → may s' e.state → n.nanos ≤ n'.nanos →
    Machine.resume n' u e = some (e', v) → Called may t s now v e'.state n'

/-- A call has come to its end. -/
abbrev Returns (may : σ → σ → Prop) (t : Task σ α) (s : σ) (now : Instant) (a : α) (s' : σ)
    (now' : Instant) : Prop := Called may t s now (.done a) s' now'

variable {may G : σ → σ → Prop} {t u : Task σ α} {g : α → Task σ β} {v : Task σ β} {s s' : σ}
  {now now' : Instant} {a : α} {b : β}

/-- A call of two tasks in sequence waits in the first, or has come into the second. -/
theorem Called.of_bind (h : Called may (t.bind g) s now v s' now') :
    (∃ w, v = w.bind g ∧ Machine.isDone w = false ∧ Called may t s now w s' now') ∨
      ∃ a s₁ n₁, Returns may t s now a s₁ n₁ ∧ Called may (g a) s₁ n₁ v s' now' := by
  -- a move that ends the first task goes on into the second
  have honward {n : Instant} {e e' : Machine.Effects σ} {w : Task σ α} {v : Task σ β}
      (hw : Called may t s now w e.state n) (hmove : Machine.onward n g (e, w) = (e', v)) :
      (∃ w, v = w.bind g ∧ Machine.isDone w = false ∧ Called may t s now w e'.state n) ∨
        ∃ a s₁ n₁, Returns may t s now a s₁ n₁ ∧ Called may (g a) s₁ n₁ v e'.state n := by
    cases hdone : Machine.isDone w with
    | true =>
      cases w with
      | done a => exact .inr ⟨a, e.state, n, hw, .call rfl hmove⟩
      | _ => cases hdone
    | false =>
      rw [Machine.onward_waiting hdone] at hmove
      cases hmove
      exact .inl ⟨w, rfl, hdone, hw⟩
  induction h with
  | call he hmove =>
    rw [Machine.advance_bind] at hmove
    exact honward (.call he rfl) hmove
  | move _ hmay hle hmove ih =>
    obtain ⟨w, rfl, hdone, hw⟩ | ⟨a, s₁, n₁, ha, hv⟩ := ih
    · rw [Machine.resume_bind hdone] at hmove
      obtain ⟨⟨e, w'⟩, hw', honw⟩ := Option.map_eq_some_iff.mp hmove
      exact honward (hw.move hmay hle hw') honw
    · exact .inr ⟨a, s₁, n₁, ha, hv.move hmay hle hmove⟩

theorem Returns.of_bind (h : Returns may (t.bind g) s now b s' now') :
    ∃ a s₁ n₁, Returns may t s now a s₁ n₁ ∧ Returns may (g a) s₁ n₁ b s' now' := by
  obtain ⟨w, hw, hdone, -⟩ | h := Called.of_bind h
  · cases w with
    | done a => cases hdone
    | _ => cases hw
  · exact h

/-- Two tasks in sequence return as the second does after the first. -/
theorem Returns.of_then (h : Returns may (t >>= g) s now b s' now') :
    ∃ a s₁ n₁, Returns may t s now a s₁ n₁ ∧ Returns may (g a) s₁ n₁ b s' now' := Returns.of_bind h

/-- What a task does at once is done when it is called. -/
theorem Called.of_act {γ : Type} {f : Instant → σ → γ × σ} {k : γ → Task σ α}
    (h : Called may (.act f k) s now u s' now') :
    Called may (k (f now s).1) (f now s).2 now u s' now' := by
  induction h with
  | call he hmove =>
    subst he
    exact .call rfl hmove
  | move _ hmay hle hmove ih => exact ih.move hmay hle hmove

theorem Called.of_done (h : Called may (.done a) s now u s' now') :
    u = .done a ∧ s' = s ∧ now' = now := by
  induction h with
  | call he hmove =>
    cases hmove
    exact ⟨rfl, he, rfl⟩
  | move _ _ _ hmove ih =>
    obtain ⟨rfl, -, -⟩ := ih
    cases hmove

theorem Returns.of_done {a' : α} (h : Returns may (.done a) s now a' s' now') :
    a' = a ∧ s' = s ∧ now' = now := by
  obtain ⟨ha, hs⟩ := Called.of_done h
  cases ha
  exact ⟨rfl, hs⟩

theorem Returns.of_read {γ : Type} {f : σ → γ} {c : γ} (h : Returns may (read f) s now c s' now') :
    c = f s ∧ s' = s ∧ now' = now := Returns.of_done (Called.of_act h)

/-- What a task answers for and others keep to is kept over a call. -/
theorem Answers.called {P : α → Prop} (hrefl : ∀ s, G s s)
    (htrans : ∀ s s' s'', G s s' → G s' s'' → G s s'') (hmay : ∀ s s', may s s' → G s s')
    (ht : t.Answers G G P) (h : Called may t s now u s' now') : G s s' ∧ u.Answers G G P := by
  have hsame (s s' : σ) (h : G s s') : G s s' := h
  induction h with
  | @call e _ _ he hmove =>
    subst he
    have hadvance : _ ∧ (Machine.advance now t e).2.Answers G G P :=
      Machine.brings_advance hrefl htrans hsame ht e
    rw [hmove] at hadvance
    exact ⟨hadvance.1.change, hadvance.2⟩
  | move _ hs _ hmove ih =>
    obtain ⟨hbrings, hanswers⟩ := Machine.brings_resume hrefl htrans hsame ih.2 hmove
    exact ⟨htrans _ _ _ ih.1 (htrans _ _ _ (hmay _ _ hs) hbrings.change), hanswers⟩

end Task
end LanguageServer
