import LanguageServer.Proofs.Task.Joint
import LanguageServer.Proofs.Task.Roles

/-! Tasks that leave some part of the state as it is, whatever else they do. -/
namespace LanguageServer

variable {ω σ τ α β γ : Type}

namespace Task

/-- Every change that the task makes to the state, what it spawns and what it releases included, is
one of `G`. -/
def Keeps (G : σ → σ → Prop) {α : Type} : Task σ α → Prop
  | .done _ => True
  | .act f k => (∀ t s, G s (f t s).2) ∧ ∀ b, (k b).Keeps G
  | .wait _ ready k => (∀ t s b s', ready t s = some (b, s') → G s s') ∧ ∀ b, (k b).Keeps G
  | .yield k => k.Keeps G
  | .spawn child k => child.Keeps G ∧ ∀ i, (k i).Keeps G
  | .cancel _ k => k.Keeps G
  | .hold release body k => (∀ s, G s (release s)) ∧ body.Keeps G ∧ ∀ b, (k b).Keeps G
  | .loop _ body k => (∀ b, (body b).Keeps G) ∧ ∀ c, (k c).Keeps G

/-- Whatever the task may end with satisfies `P`, from whatever state it goes on. -/
def Gives {α : Type} : Task σ α → (α → Prop) → Prop
  | .done a, P => P a
  | .act f k, P => ∀ t s, (k (f t s).1).Gives P
  | .wait _ ready k, P => ∀ t s b s', ready t s = some (b, s') → (k b).Gives P
  | .yield k, P => k.Gives P
  | .spawn _ k, P => ∀ i, (k i).Gives P
  | .cancel _ k, P => k.Gives P
  | .hold _ body k, P => body.Gives fun b => (k b).Gives P
  | .loop _ body k, P => ∀ b, (body b).Gives fun r =>
    match r with
    | .inl _ => True
    | .inr r => (k r).Gives P

variable {G : σ → σ → Prop}

theorem Keeps.mono {H : σ → σ → Prop} {t : Task σ α} (h : t.Keeps G) (hGH : ∀ s s', G s s' → H s s') :
    t.Keeps H := by
  induction t with
  | done a => trivial
  | act f k ih => exact ⟨fun t s => hGH _ _ (h.1 t s), fun b => ih b (h.2 b)⟩
  | wait d ready k ih =>
    exact ⟨fun t s b s' hb => hGH _ _ (h.1 t s b s' hb), fun b => ih b (h.2 b)⟩
  | yield k ih => exact ih h
  | spawn child k ihchild ih => exact ⟨ihchild h.1, fun i => ih i (h.2 i)⟩
  | cancel i k ih => exact ih h
  | hold release body k ihbody ih =>
    exact ⟨fun s => hGH _ _ (h.1 s), ihbody h.2.1, fun b => ih b (h.2.2 b)⟩
  | loop b body k ihbody ih => exact ⟨fun b => ihbody b (h.1 b), fun c => ih c (h.2 c)⟩

theorem Gives.mono {t : Task σ α} {P R : α → Prop} (h : t.Gives P) (hPR : ∀ a, P a → R a) :
    t.Gives R := by
  induction t with
  | done a => exact hPR a h
  | act f k ih => exact fun t s => ih _ (h t s) hPR
  | wait d ready k ih => exact fun t s b s' hb => ih b (h t s b s' hb) hPR
  | yield k ih => exact ih h hPR
  | spawn child k _ ih => exact fun i => ih i (h i) hPR
  | cancel i k ih => exact ih h hPR
  | hold release body k ihbody ihk => exact ihbody h fun b hb => ihk b hb hPR
  | loop b body k ihbody ihk =>
    refine fun b => ihbody b (h b) fun r hr => ?_
    cases r with
    | inl _ => trivial
    | inr r => exact ihk r hr hPR

theorem gives_true (t : Task σ α) : t.Gives fun _ => True := by
  induction t with
  | done a => trivial
  | act f k ih => exact fun t s => ih _
  | wait d ready k ih => exact fun t s b s' _ => ih b
  | yield k ih => exact ih
  | spawn child k _ ih => exact ih
  | cancel i k ih => exact ih
  | hold release body k ihbody ihk => exact ihbody.mono fun b _ => ihk b
  | loop b body k ihbody ihk =>
    refine fun b => (ihbody b).mono fun r _ => ?_
    cases r with
    | inl _ => trivial
    | inr r => exact ihk r

@[simp] theorem keeps_bind (t : Task σ α) (g : α → Task σ β) (hg : ∀ a, (g a).Keeps G) :
    (t.bind g).Keeps G ↔ t.Keeps G := by
  induction t with
  | done a => exact iff_of_true (hg a) trivial
  | act f k ih => simp only [bind, Keeps, ih _ _ hg]
  | wait d ready k ih => simp only [bind, Keeps, ih _ _ hg]
  | yield k ih => simp only [bind, Keeps, ih _ hg]
  | spawn child k _ ih => simp only [bind, Keeps, ih _ _ hg]
  | cancel i k ih => simp only [bind, Keeps, ih _ hg]
  | hold release body k _ ih => simp only [bind, Keeps, ih _ _ hg]
  | loop b body k _ ih => simp only [bind, Keeps, ih _ _ hg]

theorem Keeps.bind {t : Task σ α} {g : α → Task σ β} (ht : t.Keeps G) (hg : ∀ a, (g a).Keeps G) :
    (t >>= g).Keeps G := (keeps_bind t g hg).mpr ht

theorem Gives.bind {t : Task σ α} {g : α → Task σ β} {P : α → Prop} {R : β → Prop}
    (ht : t.Gives P) (hg : ∀ a, P a → (g a).Gives R) : (t >>= g).Gives R := by
  change (t.bind g).Gives R
  induction t with
  | done a => exact hg a ht
  | act f k ih => exact fun t s => ih _ (ht t s) hg
  | wait d ready k ih => exact fun t s b s' hb => ih b (ht t s b s' hb) hg
  | yield k ih => exact ih ht hg
  | spawn child k _ ih => exact fun i => ih i (ht i) hg
  | cancel i k ih => exact ih ht hg
  | hold release body k _ ihk => exact Gives.mono (t := body) ht fun b hb => ihk b hb hg
  | loop b body k _ ihk =>
    refine fun b => (ht b).mono fun r hr => ?_
    cases r with
    | inl _ => trivial
    | inr r => exact ihk r hr hg

theorem gives_read {f : σ → α} {P : α → Prop} (h : ∀ s, P (f s)) : (read f).Gives P := fun _ => h

/-- A task on a part changes the whole as it changes the part. -/
theorem Keeps.zoom {l : Lens σ τ} {G : τ → τ → Prop} {H : σ → σ → Prop} {t : Task τ α}
    (h : t.Keeps G) (hGH : ∀ s p, G (l.get s) p → H s (l.set p s)) : (t.zoom l).Keeps H := by
  induction t with
  | done a => trivial
  | act f k ih => exact ⟨fun now s => hGH s _ (h.1 now _), fun b => ih b (h.2 b)⟩
  | wait d ready k ih =>
    refine ⟨fun now s b s' hb => ?_, fun b => ih b (h.2 b)⟩
    obtain ⟨⟨b', p⟩, hready, heq⟩ := Option.map_eq_some_iff.mp hb
    cases heq
    exact hGH s p (h.1 now _ _ p hready)
  | yield k ih => exact ih h
  | spawn child k ihchild ih => exact ⟨ihchild h.1, fun i => ih i (h.2 i)⟩
  | cancel i k ih => exact ih h
  | hold release body k ihbody ih =>
    exact ⟨fun s => hGH s _ (h.1 _), ihbody h.2.1, fun b => ih b (h.2.2 b)⟩
  | loop b body k ihbody ih => exact ⟨fun b => ihbody b (h.1 b), fun c => ih c (h.2 c)⟩

theorem keeps_modify {f : σ → σ} (h : ∀ s, G s (f s)) : (modify f).Keeps G :=
  ⟨fun _ => h, fun _ => trivial⟩

theorem keeps_update {f : σ → α × σ} (h : ∀ s, G s (f s).2) : (update f).Keeps G :=
  ⟨fun _ => h, fun _ => trivial⟩

theorem keeps_await {ready : σ → Option (α × σ)} (h : ∀ s a s', ready s = some (a, s') → G s s') :
    (await ready).Keeps G := ⟨fun _ => h, fun _ => trivial⟩

section Reading

variable (hG : ∀ s, G s s)
include hG

theorem keeps_read (f : σ → α) : (read f).Keeps G := ⟨fun _ => hG, fun _ => trivial⟩

theorem keeps_awaitFor {span : Duration} {ready : σ → Option (α × σ)}
    (h : ∀ s a s', ready s = some (a, s') → G s s') : (awaitFor span ready).Keeps G := by
  refine ⟨fun _ => hG, fun start => ⟨fun t s a s' ha => ?_, fun _ => trivial⟩⟩
  obtain ⟨a, -, hready⟩ | ⟨-, rfl, -⟩ := given_or_late ha
  · exact h s a s' hready
  · exact hG s'

theorem keeps_exclusive {raised : σ → Bool} {set : Bool → σ → σ} (hset : ∀ b s, G s (set b s))
    {body : Task σ α} (hbody : body.Keeps G) : (exclusive raised set body).Keeps G := by
  refine Keeps.bind (keeps_await fun s a s' ha => ?_) fun _ =>
    ⟨fun _ s => hset true s, fun _ => ⟨hset false, hbody, fun _ => trivial⟩⟩
  simp only [Option.ite_none_right_eq_some, Option.some.injEq, Prod.mk.injEq] at ha
  exact ha.2.2 ▸ hG s

end Reading

/-- A task that keeps what a world tells of a state keeps to the contract, and gives what it gives. -/
theorem Keeps.meetsFrom_of_gives {c : Contract ω σ} (hc : c.Orderly)
    (hG : ∀ w s s', G s s' → c.holds w s → c.holds w s') {t : Task σ α} (ht : t.Keeps G)
    {P : α → Prop} (hP : t.Gives P) {w : ω} {s : σ} {waited : Bool} (hs : c.holds w s)
    {Q : α → ω → σ → Prop}
    (hQ : ∀ a v s, P a → v = w ∨ c.others w v → c.holds v s → Q a v s) :
    t.MeetsFrom c waited Q w s := by
  -- a task that has just waited goes on at once, any other lets others have their turn first
  have hturns {w s} (waited : Bool) (hs : c.holds w s) {P : ω → σ → Prop}
      (hP : ∀ v s, v = w ∨ c.others w v → c.holds v s → P v s) : c.Turns waited w s P := by
    cases waited with
    | true => exact hP w s (.inl rfl) hs
    | false => exact ⟨w, hc.own_refl w, hs, fun v s hv hs => hP v s (.inr hv) hs⟩
  have htrans {u v w : ω} (hv : v = w ∨ c.others w v) (hu : u = v ∨ c.others v u) :
      u = w ∨ c.others w u := by
    obtain rfl | hv := hv
    · exact hu
    · obtain rfl | hu := hu
      · exact .inr hv
      · exact .inr (hc.others_trans _ _ _ hv hu)
  induction t generalizing w s waited with
  | done a => exact hQ a w s hP (.inl rfl) hs
  | act f k ih => exact fun t => ih _ (ht.2 _) (hP t s) (hG _ _ _ (ht.1 t s) hs) hQ
  | wait d ready k ih =>
    refine hturns _ hs fun v s hv hs => ⟨fun _ => hc.stalls s, fun t b s' hready => ?_⟩
    have hs' := hG _ _ _ (ht.1 t s b s' hready) hs
    exact ih b (ht.2 b) (hP t s b s' hready) hs' fun a u s ha hu => hQ a u s ha (htrans hv hu)
  | yield k ih =>
    exact hturns _ hs fun v s hv hs => ih ht hP hs fun a u s ha hu => hQ a u s ha (htrans hv hu)
  | spawn child k ihchild ih =>
    refine ⟨w, hc.own_refl w, fun _ v s hv hs => ?_, fun i => ih i (ht.2 i) (hP i) hs hQ⟩
    exact ihchild ht.1 (gives_true child) hs fun _ u s _ _ hs => ⟨u, hc.own_refl u, hs⟩
  | cancel i k ih => exact ih ht hP hs hQ
  | hold release body k ihbody ihk =>
    refine ⟨fun _ v s hs => ⟨v, hc.own_refl v, hG _ _ _ (ht.1 s) hs⟩, ?_⟩
    exact ihbody ht.2.1 hP hs fun b v s hb hv hs =>
      ihk b (ht.2.2 b) hb (hG _ _ _ (ht.1 s) hs) fun a u s ha hu => hQ a u s ha (htrans hv hu)
  | loop b body k ihbody ihk =>
    refine ⟨fun _ v s => (v = w ∨ c.others w v) ∧ c.holds v s, fun _ => 0,
      hturns _ hs fun v s hv hs => ⟨hv, hs⟩, ?_⟩
    rintro b v s ⟨hv, hs⟩
    refine ihbody b (ht.1 b) (hP b) hs fun r u s hr hu hs => ?_
    cases r with
    | inl b' =>
      have hparks : c.Parks u s fun v' s => (v' = w ∨ c.others w v') ∧ c.holds v' s :=
        hturns false hs fun v' s hv' hs => ⟨htrans (htrans hv hu) hv', hs⟩
      exact ⟨hparks, fun htotal => absurd htotal hc.endless⟩
    | inr r =>
      exact ihk r (ht.2 r) hr hs fun a u' s ha hu' => hQ a u' s ha (htrans (htrans hv hu) hu')

theorem Keeps.meetsFrom {c : Contract ω σ} (hc : c.Orderly)
    (hG : ∀ w s s', G s s' → c.holds w s → c.holds w s') {t : Task σ α} (ht : t.Keeps G) {w : ω}
    {s : σ} {waited : Bool} (hs : c.holds w s) {Q : α → ω → σ → Prop}
    (hQ : ∀ a v s, v = w ∨ c.others w v → c.holds v s → Q a v s) :
    t.MeetsFrom c waited Q w s :=
  ht.meetsFrom_of_gives hc hG (gives_true t) hs fun a v s _ => hQ a v s

end Task
end LanguageServer

/-! Tasks cut into slices: others may go on before everything that a task does to the state. What
keeps to a pact in slices keeps to it as a whole. -/
namespace LanguageServer

variable {γ ρ σ α : Type}

/-- The task, giving way before every single thing that it does to the state. -/
def Task.sliced {α : Type} : Task σ α → Task σ α
  | .done a => .done a
  | .act f k => .wait none (fun now s => some (f now s)) fun b => (k b).sliced
  | .wait d ready k => .wait d ready fun b => (k b).sliced
  | .yield k => .yield k.sliced
  | .spawn child k => .spawn child.sliced fun i => (k i).sliced
  | .cancel i k => .cancel i k.sliced
  | .hold release body k => .hold release body.sliced fun b => (k b).sliced
  | .loop b body k => .loop b (fun b => (body b).sliced) fun c => (k c).sliced

namespace Pact

/-- A pact under which nothing need have happened while a task waited. -/
structure IsCalm (c : Pact γ ρ σ) : Prop extends c.IsFair where
  others_refl : ∀ g, c.others g g

variable {c : Pact γ ρ σ} {me : TaskId} {w : World γ ρ} {s : σ}

/-- A world that a task has moved on to by itself. -/
def Steps (c : Pact γ ρ σ) (me : TaskId) (w v : World γ ρ) : Prop :=
  ∃ g r, c.own w.told g ∧ c.isLoose r = c.isLoose (w.role me) ∧ v = (w.tell g).cast me r

theorem Parks.of_step (hc : c.IsFair) {v : World γ ρ} {P : World γ ρ → σ → Prop}
    (hv : c.Steps me w v) (h : c.Parks me v s P) : c.Parks me w s P := by
  obtain ⟨g, r, hg, hloose, rfl⟩ := hv
  obtain ⟨g', r', hg', hr', hloose', hs, hP⟩ := h
  rw [World.role_cast_self] at hloose'
  refine ⟨g', r', hc.own_trans _ _ _ hg hg', hr', hloose'.trans hloose, ?_, fun v s hv hs => ?_⟩
  · simpa [World.tell_cast] using hs
  · exact hP v s (by simpa [World.tell_cast] using hv) hs

theorem Rests.of_step (hc : c.IsFair) {v : World γ ρ} (hv : c.Steps me w v) (h : c.Rests me v s) :
    c.Rests me w s := by
  obtain ⟨g, r, hg, -, rfl⟩ := hv
  obtain ⟨g', hg', hs⟩ := h
  exact ⟨g', hc.own_trans _ _ _ hg hg', by simpa [World.tell_cast] using hs⟩

end Pact

namespace Task

variable {c : Pact γ ρ σ} {me : TaskId} {w v : World γ ρ} {s : σ}

/-- A task may take a step by itself before it is called. -/
theorem Honors.of_step (hc : c.IsFair) {t : Task σ α} {Q : α → World γ ρ → σ → Prop}
    (h : t.Honors c me false Q v s) (hv : c.Steps me w v)
    (hQ : ∀ a w v s, c.Steps me w v → Q a v s → Q a w s) : t.Honors c me false Q w s := by
  induction t generalizing w v s with
  | done a => exact hQ a w v s hv h
  | act f k ih =>
    intro t ht
    obtain ⟨g, r, hg, -, rfl⟩ := id hv
    exact ih _ (h t (hc.shows_own _ _ _ hg ht)) hv hQ
  | wait d ready k ih => exact Pact.Parks.of_step hc hv h
  | yield k ih => exact Pact.Parks.of_step hc hv h
  | spawn child k _ ih =>
    obtain ⟨g, r, hg, hloose, rfl⟩ := hv
    intro i hi hunborn
    have hsame : ((w.tell g).cast me r).role i = w.role i := World.role_cast_of_ne _ r hi
    obtain ⟨g', r', hg', hr', hchild, hk⟩ := h i hi (hsame.trans hunborn)
    refine ⟨g', r', hc.own_trans _ _ _ hg hg', hr', fun u s hu hs => hchild u s ?_ hs, ?_⟩
    · simpa [Pact.Later] using hu
    · refine ih i hk ⟨g', r, hc.own_refl _, ?_, ?_⟩ hQ
      · rw [World.role_cast_of_ne _ _ hi.symm]
        exact hloose
      · rw [World.tell_cast, World.tell_cast, World.tell_tell, World.tell_tell,
          World.cast_comm _ _ _ hi.symm]
  | cancel i k ih =>
    obtain ⟨g, r, hg, hloose, rfl⟩ := hv
    obtain ⟨hi, hdrop, hk⟩ := h
    rw [World.role_cast_of_ne _ _ hi] at hdrop
    refine ⟨hi, hdrop, ih hk ⟨g, r, hg, ?_, ?_⟩ hQ⟩
    · rw [World.role_cast_of_ne _ _ hi.symm]
      exact hloose
    · rw [World.tell_cast, World.cast_comm _ _ _ hi]
  | hold release body k ihbody ihk =>
    refine ⟨fun hl => h.1 ?_, ihbody h.2 hv fun b w v s hv hb => ihk b hb hv hQ⟩
    obtain ⟨g, r, -, hloose, rfl⟩ := hv
    rw [World.role_cast_self, hloose, hl]
  | loop b body k ihbody ihk =>
    obtain ⟨J, hfirst, hround⟩ := h
    exact ⟨J, Pact.Parks.of_step hc hv hfirst, hround⟩

/-- What keeps to a pact in slices keeps to it as a whole. -/
theorem Honors.of_sliced (hc : c.IsCalm) {t : Task σ α} {waited : Bool}
    {Q : α → World γ ρ → σ → Prop} (h : t.sliced.Honors c me waited Q w s)
    (hQ : ∀ a w v s, c.Steps me w v → Q a v s → Q a w s) : t.Honors c me waited Q w s := by
  induction t generalizing me w s waited with
  | done a => exact h
  | act f k ih =>
    intro t ht
    cases waited with
    | true => exact ih _ (h t _ _ ht rfl) hQ
    | false =>
      obtain ⟨g, r, hg, hr, hloose, hs, hk⟩ := h
      have hnow := hc.shows_own _ _ _ hg ht
      refine Honors.of_step hc.toIsFair (ih _ (hk _ s ⟨hc.others_refl _, rfl⟩ hs t _ _ hnow rfl) hQ)
        ⟨g, r, hg, hloose, rfl⟩ hQ
  | wait d ready k ih =>
    exact Pact.Turns.mono h fun v s hv t b s' ht hb => ih b (hv t b s' ht hb) hQ
  | yield k ih => exact Pact.Turns.mono h fun v s hv => ih hv hQ
  | spawn child k ihchild ih =>
    intro i hi hunborn
    obtain ⟨g, r, hg, hr, hchild, hk⟩ := h i hi hunborn
    exact ⟨g, r, hg, hr, fun v s hv hs => ihchild (hchild v s hv hs) fun _ _ _ _ hv hs =>
      Pact.Rests.of_step hc.toIsFair hv hs, ih i hk hQ⟩
  | cancel i k ih => exact ⟨h.1, h.2.1, ih h.2.2 hQ⟩
  | hold release body k ihbody ihk =>
    refine ⟨h.1, ihbody (h.2.mono fun b v s hb => ihk b hb hQ) fun b w v s hv hb => ?_⟩
    exact Honors.of_step hc.toIsFair hb hv hQ
  | loop b body k ihbody ihk =>
    obtain ⟨J, hfirst, hround⟩ := h
    refine ⟨J, hfirst, fun b w s hb => ihbody b ((hround b w s hb).mono fun r v s hr => ?_) ?_⟩
    · cases r with
      | inl b' => exact hr
      | inr r => exact ihk r hr hQ
    · intro r w v s hv hr
      cases r with
      | inl b' => exact Pact.Parks.of_step hc.toIsFair hv hr
      | inr r => exact Honors.of_step hc.toIsFair hr hv hQ

theorem honors_sliced_read {f : σ → α} {waited : Bool} {Q : α → World γ ρ → σ → Prop}
    (h : c.Turns me waited w s fun v s => Q (f s) v s) :
    (read f).sliced.Honors c me waited Q w s :=
  Pact.Turns.mono h fun _ _ hv _ _ _ _ hread => by
    cases hread
    exact hv

end Task

namespace Pact

variable {c : Pact γ ρ σ} {i : TaskId} {w : World γ ρ}

theorem Ready.of_sliced (hc : c.IsCalm) {t : Task σ Unit} (h : c.Ready i w t.sliced) :
    c.Ready i w t := fun v s hv hs =>
  (h v s hv hs).of_sliced hc fun _ _ _ _ hv hs => Rests.of_step hc.toIsFair hv hs

end Pact
end LanguageServer
