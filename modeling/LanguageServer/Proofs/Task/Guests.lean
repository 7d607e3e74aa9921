import LanguageServer.Proofs.Task.Frame

/-! Tasks that have no part in what a pact is about, and what they spawn. They leave what the pact
tells of a state as it is, drop nobody, and may come and go. What they change may depend on the time
at which they change it: what is dropped because it has expired, for one. -/
namespace LanguageServer

variable {γ ρ σ α β : Type}

namespace Task

/-- The task drops no other, and neither does what it spawns. -/
def DropsNone {α : Type} : Task σ α → Prop
  | .done _ => True
  | .act _ k => ∀ b, (k b).DropsNone
  | .wait _ _ k => ∀ b, (k b).DropsNone
  | .yield k => k.DropsNone
  | .spawn child k => child.DropsNone ∧ ∀ i, (k i).DropsNone
  | .cancel _ _ => False
  | .hold _ body k => body.DropsNone ∧ ∀ b, (k b).DropsNone
  | .loop _ body k => (∀ b, (body b).DropsNone) ∧ ∀ c, (k c).DropsNone

theorem DropsNone.sliced {t : Task σ α} (h : t.DropsNone) : t.sliced.DropsNone := by
  induction t with
  | done a => trivial
  | act f k ih => exact fun b => ih b (h b)
  | wait d ready k ih => exact fun b => ih b (h b)
  | yield k ih => exact ih h
  | spawn child k ihchild ih => exact ⟨ihchild h.1, fun i => ih i (h.2 i)⟩
  | cancel i k => exact h
  | hold release body k ihbody ih => exact ⟨ihbody h.1, fun b => ih b (h.2 b)⟩
  | loop b body k ihbody ih => exact ⟨fun b => ihbody b (h.1 b), fun c => ih c (h.2 c)⟩

theorem DropsNone.bind {t : Task σ α} {g : α → Task σ β} (ht : t.DropsNone)
    (hg : ∀ a, (g a).DropsNone) : (t.bind g).DropsNone := by
  induction t with
  | done a => exact hg a
  | act f k ih => exact fun b => ih b (ht b) hg
  | wait d ready k ih => exact fun b => ih b (ht b) hg
  | yield k ih => exact ih ht hg
  | spawn child k _ ih => exact ⟨ht.1, fun i => ih i (ht.2 i) hg⟩
  | cancel i k => exact ht.elim
  | hold release body k _ ih => exact ⟨ht.1, fun b => ih b (ht.2 b) hg⟩
  | loop b body k _ ih => exact ⟨ht.1, fun c => ih c (ht.2 c) hg⟩

theorem DropsNone.zoom {τ : Type} {l : Lens τ σ} {t : Task σ α} (h : t.DropsNone) :
    (t.zoom l).DropsNone := by
  induction t with
  | done a => trivial
  | act f k ih => exact fun b => ih b (h b)
  | wait d ready k ih => exact fun b => ih b (h b)
  | yield k ih => exact ih h
  | spawn child k ihchild ih => exact ⟨ihchild h.1, fun i => ih i (h.2 i)⟩
  | cancel i k => exact h
  | hold release body k ihbody ih => exact ⟨ihbody h.1, fun b => ih b (h.2 b)⟩
  | loop b body k ihbody ih => exact ⟨fun b => ihbody b (h.1 b), fun c => ih c (h.2 c)⟩

/-- The task makes no change but those of `G`, and drops nobody. -/
structure Behaves (G : σ → σ → Prop) (t : Task σ α) : Prop where
  keeps : t.Keeps G
  dropsNone : t.DropsNone

namespace Behaves

variable {G : σ → σ → Prop}

theorem bind {t : Task σ α} {g : α → Task σ β} (ht : t.Behaves G) (hg : ∀ a, (g a).Behaves G) :
    (t >>= g).Behaves G :=
  ⟨ht.keeps.bind fun a => (hg a).keeps, ht.dropsNone.bind fun a => (hg a).dropsNone⟩

theorem done (a : α) : (Task.done a : Task σ α).Behaves G := ⟨trivial, trivial⟩

theorem modify {f : σ → σ} (h : ∀ s, G s (f s)) : (Task.modify f).Behaves G :=
  ⟨keeps_modify h, fun _ => trivial⟩

theorem update {f : σ → α × σ} (h : ∀ s, G s (f s).2) : (Task.update f).Behaves G :=
  ⟨keeps_update h, fun _ => trivial⟩

theorem await {ready : σ → Option (α × σ)} (h : ∀ s a s', ready s = some (a, s') → G s s') :
    (Task.await ready).Behaves G := ⟨keeps_await h, fun _ => trivial⟩

theorem repeatFrom {γ : Type} {b : β} {body : β → Task σ (β ⊕ γ)} (h : ∀ b, (body b).Behaves G) :
    (Task.repeatFrom b body).Behaves G :=
  ⟨⟨fun b => (h b).keeps, fun _ => trivial⟩, fun b => (h b).dropsNone, fun _ => trivial⟩

variable (hG : ∀ s, G s s)
include hG

theorem read (f : σ → α) : (Task.read f).Behaves G := ⟨keeps_read hG f, fun _ => trivial⟩

theorem now : (Task.now : Task σ Instant).Behaves G := ⟨⟨fun _ => hG, fun _ => trivial⟩, fun _ => trivial⟩

theorem awaitFor {span : Duration} {ready : σ → Option (α × σ)}
    (h : ∀ s a s', ready s = some (a, s') → G s s') : (Task.awaitFor span ready).Behaves G :=
  ⟨keeps_awaitFor hG h, fun _ _ => trivial⟩

theorem exclusive {raised : σ → Bool} {set : Bool → σ → σ} (hset : ∀ b s, G s (set b s))
    {body : Task σ α} (hbody : body.Behaves G) : (Task.exclusive raised set body).Behaves G :=
  ⟨keeps_exclusive hG hset hbody.keeps, fun _ _ => ⟨hbody.dropsNone, fun _ => trivial⟩⟩

end Behaves

/-- Every change that the task makes to the state is one of `G` at the time at which it is made. What
it spawns does the same, and nobody is dropped. -/
def KeepsAt (G : Instant → σ → σ → Prop) {α : Type} : Task σ α → Prop
  | .done _ => True
  | .act f k => (∀ t s, G t s (f t s).2) ∧ ∀ b, (k b).KeepsAt G
  | .wait _ ready k => (∀ t s b s', ready t s = some (b, s') → G t s s') ∧ ∀ b, (k b).KeepsAt G
  | .yield k => k.KeepsAt G
  | .spawn child k => child.KeepsAt G ∧ ∀ i, (k i).KeepsAt G
  | .cancel _ _ => False
  | .hold release body k => (∀ t s, G t s (release s)) ∧ body.KeepsAt G ∧ ∀ b, (k b).KeepsAt G
  | .loop _ body k => (∀ b, (body b).KeepsAt G) ∧ ∀ c, (k c).KeepsAt G

theorem KeepsAt.bind {G : Instant → σ → σ → Prop} {t : Task σ α} {g : α → Task σ β} (ht : t.KeepsAt G)
    (hg : ∀ a, (g a).KeepsAt G) : (t >>= g).KeepsAt G := by
  change (t.bind g).KeepsAt G
  induction t with
  | done a => exact hg a
  | act f k ih => exact ⟨ht.1, fun b => ih b (ht.2 b) hg⟩
  | wait d ready k ih => exact ⟨ht.1, fun b => ih b (ht.2 b) hg⟩
  | yield k ih => exact ih ht hg
  | spawn child k _ ih => exact ⟨ht.1, fun i => ih i (ht.2 i) hg⟩
  | cancel i k => exact ht.elim
  | hold release body k _ ih => exact ⟨ht.1, ht.2.1, fun b => ih b (ht.2.2 b) hg⟩
  | loop b body k _ ih => exact ⟨ht.1, fun c => ih c (ht.2 c) hg⟩

/-- What is right at any time is right at the time at which it is done. -/
theorem Behaves.keepsAt {G : Instant → σ → σ → Prop} {H : σ → σ → Prop} {t : Task σ α} (h : t.Behaves H)
    (hHG : ∀ t s s', H s s' → G t s s') : t.KeepsAt G := by
  obtain ⟨hkeeps, hdrops⟩ := h
  induction t with
  | done a => trivial
  | act f k ih => exact ⟨fun t s => hHG t _ _ (hkeeps.1 t s), fun b => ih b (hkeeps.2 b) (hdrops b)⟩
  | wait d ready k ih =>
    exact ⟨fun t s b s' hb => hHG t _ _ (hkeeps.1 t s b s' hb), fun b => ih b (hkeeps.2 b) (hdrops b)⟩
  | yield k ih => exact ih hkeeps hdrops
  | spawn child k ihchild ih =>
    exact ⟨ihchild hkeeps.1 hdrops.1, fun i => ih i (hkeeps.2 i) (hdrops.2 i)⟩
  | cancel i k => exact hdrops.elim
  | hold release body k ihbody ih =>
    exact ⟨fun t s => hHG t _ _ (hkeeps.1 s), ihbody hkeeps.2.1 hdrops.1,
      fun b => ih b (hkeeps.2.2 b) (hdrops.2 b)⟩
  | loop b body k ihbody ih =>
    exact ⟨fun b => ihbody b (hkeeps.1 b) (hdrops.1 b), fun c => ih c (hkeeps.2 c) (hdrops.2 c)⟩

theorem Keeps.sliced {G : σ → σ → Prop} {t : Task σ α} (h : t.Keeps G) : t.sliced.Keeps G := by
  induction t with
  | done a => trivial
  | act f k ih =>
    refine ⟨fun t s b s' hb => ?_, fun b => ih b (h.2 b)⟩
    have hs' : (f t s).2 = s' := congrArg Prod.snd (Option.some.inj hb)
    exact hs' ▸ h.1 t s
  | wait d ready k ih => exact ⟨h.1, fun b => ih b (h.2 b)⟩
  | yield k ih => exact ih h
  | spawn child k ihchild ih => exact ⟨ihchild h.1, fun i => ih i (h.2 i)⟩
  | cancel i k ih => exact ih h
  | hold release body k ihbody ih => exact ⟨h.1, ihbody h.2.1, fun b => ih b (h.2.2 b)⟩
  | loop b body k ihbody ih => exact ⟨fun b => ihbody b (h.1 b), fun c => ih c (h.2 c)⟩

theorem bind_assoc {δ : Type} (t : Task σ α) (g : α → Task σ β) (h : β → Task σ δ) :
    (t.bind g).bind h = t.bind fun a => (g a).bind h := by
  induction t with
  | done a => rfl
  | act f k ih => simp only [bind, ih]
  | wait d ready k ih => simp only [bind, ih]
  | yield k ih => simp only [bind, ih]
  | spawn child k _ ih => simp only [bind, ih]
  | cancel i k ih => simp only [bind, ih]
  | hold release body k _ ih => simp only [bind, ih]
  | loop b body k _ ih => simp only [bind, ih]

theorem sliced_bind (t : Task σ α) (g : α → Task σ β) :
    (t.bind g).sliced = t.sliced.bind fun a => (g a).sliced := by
  induction t with
  | done a => rfl
  | act f k ih => simp only [bind, Task.sliced, ih]
  | wait d ready k ih => simp only [bind, Task.sliced, ih]
  | yield k ih => simp only [bind, Task.sliced, ih]
  | spawn child k _ ih => simp only [bind, Task.sliced, ih]
  | cancel i k ih => simp only [bind, Task.sliced, ih]
  | hold release body k _ ih => simp only [bind, Task.sliced, ih]
  | loop b body k _ ih => simp only [bind, Task.sliced, ih]

end Task

/-- A role of those who have no part: what they do to the state is one of `G`, and nothing is said of
it. -/
structure Pact.Hosts (c : Pact γ ρ σ) (guest : ρ) (G : σ → σ → Prop) : Prop where
  fair : c.IsFair
  live : c.IsLive guest
  keeps : ∀ w s s', G s s' → c.holds w s → c.holds w s'
  arrives : ∀ w s i, w.role i = c.unborn → c.holds w s → c.holds (w.cast i guest) s
  leaves : ∀ w s i, w.role i = guest → c.holds w s → c.holds (w.cast i c.gone) s

variable {c : Pact γ ρ σ} {guest : ρ} {G : σ → σ → Prop} {me : TaskId} {w v : World γ ρ} {s : σ}

/-- A world that has gone on while a task was there, which has its role still. -/
def Pact.Since (c : Pact γ ρ σ) (me : TaskId) (w v : World γ ρ) : Prop :=
  (v.told = w.told ∨ c.others w.told v.told) ∧ v.role me = w.role me

theorem Pact.Since.trans (hc : c.IsFair) {u : World γ ρ} (hu : c.Since me v u)
    (hv : c.Since me w v) : c.Since me w u := by
  refine ⟨?_, hu.2.trans hv.2⟩
  obtain hu | hu := hu.1
  · exact hu ▸ hv.1
  · obtain hv | hv := hv.1
    · exact .inr (hv ▸ hu)
    · exact .inr (hc.others_trans _ _ _ hv hu)

/-- A task may wait with the role that it has. -/
theorem Pact.Turns.of_since (hc : c.IsFair) (waited : Bool) (hs : c.holds w s)
    (hme : c.IsLive (w.role me)) {P : World γ ρ → σ → Prop}
    (hP : ∀ v s, c.Since me w v → c.holds v s → P v s) : c.Turns me waited w s P := by
  cases waited with
  | true => exact hP w s ⟨.inl rfl, rfl⟩ hs
  | false =>
    refine ⟨w.told, w.role me, hc.own_refl _, hme, rfl, by simpa using hs, fun v s hv hs => ?_⟩
    simp only [World.tell_told, World.cast_role] at hv
    exact hP v s ⟨.inr hv.1, hv.2⟩ hs

/-- Changes that depend on the time at which they are made are no part of what the pact is about
either. -/
structure Pact.HostsAt (c : Pact γ ρ σ) (guest : ρ) (G : Instant → σ → σ → Prop) : Prop where
  fair : c.IsFair
  live : c.IsLive guest
  keeps : ∀ w s s' t, c.shows w.told t → G t s s' → c.holds w s → c.holds w s'
  releases : ∀ w s s', (∀ t, G t s s') → c.holds w s → c.holds w s'
  arrives : ∀ w s i, w.role i = c.unborn → c.holds w s → c.holds (w.cast i guest) s
  leaves : ∀ w s i, w.role i = guest → c.holds w s → c.holds (w.cast i c.gone) s

/-- A task without a part keeps to the pact, whatever role it has meanwhile. -/
theorem Task.KeepsAt.honors {G : Instant → σ → σ → Prop} (hg : c.HostsAt guest G) {t : Task σ α}
    (ht : t.KeepsAt G) {waited : Bool} (hs : c.holds w s) (hme : c.IsLive (w.role me))
    {Q : α → World γ ρ → σ → Prop} (hQ : ∀ a v s, c.Since me w v → c.holds v s → Q a v s) :
    t.Honors c me waited Q w s := by
  induction t generalizing me w s waited with
  | done a => exact hQ a w s ⟨.inl rfl, rfl⟩ hs
  | act f k ih => exact fun t hnow => ih _ (ht.2 _) (hg.keeps _ _ _ t hnow (ht.1 t s) hs) hme hQ
  | wait d ready k ih =>
    refine .of_since hg.fair _ hs hme fun v s hv hs t b s' hnow hready => ?_
    have hs' := hg.keeps _ _ _ t hnow (ht.1 t s b s' hready) hs
    exact ih b (ht.2 b) hs' (hv.2 ▸ hme) fun a u s hu => hQ a u s (hu.trans hg.fair hv)
  | yield k ih =>
    exact .of_since hg.fair _ hs hme fun v s hv hs =>
      ih ht hs (hv.2 ▸ hme) fun a u s hu => hQ a u s (hu.trans hg.fair hv)
  | spawn child k ihchild ih =>
    intro i hi hunborn
    have hcast := hg.arrives w s i hunborn hs
    refine ⟨w.told, guest, hg.fair.own_refl _, hg.live, fun v s hv hs => ?_, ?_⟩
    · have hrole : v.role i = guest := hv.2.trans (World.role_cast_self _ _ _)
      refine ihchild ht.1 hs (hrole ▸ hg.live) fun _ u s hu hs => ?_
      exact ⟨u.told, hg.fair.own_refl _, hg.leaves u s i (hu.2.trans hrole) hs⟩
    · have hsame : (w.cast i guest).role me = w.role me := w.role_cast_of_ne guest hi.symm
      refine ih i (ht.2 i) hcast (hsame.symm ▸ hme) fun a u s hu => hQ a u s ?_
      exact ⟨hu.1, hu.2.trans hsame⟩
  | cancel i k => exact ht.elim
  | hold release body k ihbody ihk =>
    refine ⟨fun _ v s hs => hg.releases _ _ _ (fun t => ht.1 t s) hs, ?_⟩
    refine ihbody ht.2.1 hs hme fun b v s hv hs => ?_
    exact ihk b (ht.2.2 b) (hg.releases _ _ _ (fun t => ht.1 t s) hs) (hv.2 ▸ hme)
      fun a u s hu => hQ a u s (hu.trans hg.fair hv)
  | loop b body k ihbody ihk =>
    refine ⟨fun _ v s => c.Since me w v ∧ c.holds v s,
      .of_since hg.fair _ hs hme fun v s hv hs => ⟨hv, hs⟩, ?_⟩
    rintro b v s ⟨hv, hs⟩
    refine ihbody b (ht.1 b) hs (hv.2 ▸ hme) fun r u s hu hs => ?_
    have hwu := hu.trans hg.fair hv
    cases r with
    | inl b' =>
      exact Pact.Turns.of_since hg.fair false hs (hwu.2 ▸ hme)
        fun v' s hv' hs => ⟨hv'.trans hg.fair hwu, hs⟩
    | inr r =>
      exact ihk r (ht.2 r) hs (hwu.2 ▸ hme) fun a u' s hu' => hQ a u' s (hu'.trans hg.fair hwu)

/-- A guest whose changes depend on the time may join. -/
theorem Pact.HostsAt.ready {G : Instant → σ → σ → Prop} (hg : c.HostsAt guest G) {t : Task σ Unit}
    (ht : t.KeepsAt G) (hme : w.role me = guest) : c.Ready me w t := by
  intro v s hv hs
  have hrole := hv.2.trans hme
  refine ht.honors hg hs (hrole ▸ hg.live) fun _ u s hu hs => ?_
  exact ⟨u.told, hg.fair.own_refl _, hg.leaves u s me (hu.2.trans hrole) hs⟩

theorem Task.Keeps.honors (hg : c.Hosts guest G) {t : Task σ α} (ht : t.Keeps G)
    (hd : t.DropsNone) {waited : Bool} (hs : c.holds w s) (hme : c.IsLive (w.role me))
    {Q : α → World γ ρ → σ → Prop} (hQ : ∀ a v s, c.Since me w v → c.holds v s → Q a v s) :
    t.Honors c me waited Q w s := by
  have hhosts : c.HostsAt guest fun _ => G :=
    { hg with
      keeps := fun w s s' _ _ => hg.keeps w s s'
      releases := fun w s s' h => hg.keeps w s s' (h ⟨0⟩) }
  have hbehaves : t.Behaves G := ⟨ht, hd⟩
  exact (hbehaves.keepsAt fun _ _ _ h => h).honors hhosts hs hme hQ

namespace Pact.Hosts

variable (hg : c.Hosts guest G)
include hg

/-- A guest that keeps its role to its end may join. -/
theorem ready {t : Task σ Unit} (hme : w.role me = guest)
    (ht : ∀ v s, v.role me = guest → c.holds v s →
      t.Honors c me true (fun _ u s => c.Since me v u ∧ c.holds u s) v s) : c.Ready me w t := by
  intro v s hv hs
  have hrole := hv.2.trans hme
  refine (ht v s hrole hs).mono fun _ u s hu => ?_
  exact ⟨u.told, hg.fair.own_refl _, hg.leaves u s me (hu.1.2.trans hrole) hu.2⟩

/-- A guest may drop a guest that there has been. -/
theorem abort_ready (hloose : c.isLoose guest = true) {i : TaskId} (hme : w.role me = guest)
    (hne : i ≠ me) (hi : ∀ v s, c.Later me w v → c.holds v s → v.role i = guest ∨ v.role i = c.gone) :
    c.Ready me w (Task.abort i) := by
  intro v s hv hs
  have hrole := hv.2.trans hme
  have hdropped : (v.role i = c.gone ∨ c.isLoose (v.role i) = true) ∧ c.holds (v.cast i c.gone) s := by
    obtain hguest | hgone := hi v s hv hs
    · exact ⟨.inr (hguest ▸ hloose), hg.leaves v s i hguest hs⟩
    · refine ⟨.inl hgone, ?_⟩
      rw [← hgone, World.cast_role]
      exact hs
  have hsame : (v.cast i c.gone).role me = guest := (v.role_cast_of_ne _ hne.symm).trans hrole
  exact ⟨hne, hdropped.1, v.told, hg.fair.own_refl _, hg.leaves _ _ me hsame hdropped.2⟩

/-- A guest may join that only drops a guest there has been. -/
theorem binds_abort (hloose : c.isLoose guest = true) (hrefl : c.others w.told w.told) {m : Machine σ}
    (hm : c.Binds w m) {i : TaskId}
    (hi : ∀ v s, c.others w.told v.told → c.holds v s → v.role i = guest ∨ v.role i = c.gone) :
    c.Binds ((w.tell w.told).cast m.next guest) (m.spawn (Task.abort i)) := by
  have hunborn : w.role m.next = c.unborn := hm.unborn _ (Nat.le_refl _)
  -- nobody has played a part under the new number yet
  have hne : i ≠ m.next := by
    rintro rfl
    obtain h | h := hi w m.state hrefl hm.holds
    · exact hg.live.1 (h.symm.trans hunborn)
    · exact hg.fair.gone_ne (h.symm.trans hunborn)
  refine hm.spawn hg.fair hrefl hm.shows hg.live (hg.arrives w _ _ hunborn hm.holds) ?_
  exact hg.abort_ready hloose (World.role_cast_self _ _ _) hne fun v s hv hs => hi v s hv.1 hs

/-- Guests bring in guests. -/
theorem honors_fork {t : Task σ Unit} (ht : ∀ i v, v.role i = guest → c.Ready i v t) {waited : Bool}
    (hs : c.holds w s) {Q : TaskId → World γ ρ → σ → Prop}
    (hQ : ∀ i v, c.Since me w v → c.holds v s → Q i v s) :
    (Task.fork t).Honors c me waited Q w s := by
  intro i hi hunborn
  have hguest : (w.cast i guest).role i = guest := w.role_cast_self _ _
  refine ⟨w.told, guest, hg.fair.own_refl _, hg.live, ht i _ hguest, hQ i _ ⟨.inl rfl, ?_⟩ ?_⟩
  · exact w.role_cast_of_ne _ hi.symm
  · exact hg.arrives w s i hunborn hs

end Pact.Hosts
end LanguageServer
