import LanguageServer.Flight.Table
import LanguageServer.Proofs.Task.Owners
import LanguageServer.Proofs.Task.Joint

/-! What a caller meets who joins a flight or begins one, and who waits for its outcome. -/
namespace LanguageServer.FlightTable

variable {ω σ τ κ ν β : Type} [BEq κ] {c : Contract ω σ} {w : ω} {s : σ}

def begun (t : FlightTable κ ν) (key : κ) : FlightTable κ ν :=
  { t with running := t.running.insert key t.next, next := t.next + 1 }

theorem meets_join {l : Lens σ (FlightTable κ ν)} {key : κ} {settled : σ → Option ν}
    {begin : σ → β × σ} {work : β → Task σ (Except Failure ν)} {Q : Ticket ν → ω → σ → Prop}
    (hjoined : ∀ id, (l.get s).running.find? key = some id → Q (.flight id) w (l.set (l.get s) s))
    (hsettled : ∀ a, (l.get s).running.find? key = none → settled s = some a →
      Q (.ready a) w (l.set (l.get s) s))
    (hstarted : (l.get s).running.find? key = none → settled s = none →
      ∃ v, c.own w v ∧
        (c.isShared → ∀ v' s', c.others v v' → c.holds v' s' →
          ((work (begin (l.set ((l.get s).begun key) s)).1).bind fun outcome =>
            Task.modify (l.modify (·.land key (l.get s).next outcome))).MeetsFrom c true
              (fun _ => c.Rests) v' s') ∧
        Q (.flight (l.get s).next) v (begin (l.set ((l.get s).begun key) s)).2) :
    (join l key settled begin work).Meets c Q w s := by
  intro now
  cases hrun : (l.get s).running.find? key with
  | some id => simpa [request, hrun] using hjoined id hrun
  | none =>
    cases hset : settled s with
    | some a => simpa [request, hrun, hset] using hsettled a hrun hset
    | none =>
      obtain ⟨v, hv, hwork, hQ⟩ := hstarted hrun hset
      simp only [request, hrun, hset]
      exact ⟨v, hv, hwork, fun _ => hQ⟩

omit [BEq κ] in
theorem meets_await {l : Lens σ (FlightTable κ ν)} {ticket : Ticket ν}
    {Q : Except Failure ν → ω → σ → Prop}
    (hready : ∀ a, ticket = .ready a → Q (.ok a) w s)
    (hflight : ∀ id, ticket = .flight id → c.Parks w s fun v s =>
      ((l.get s).outcome? id = none → c.stalls s) ∧
        ∀ o, (l.get s).outcome? id = some o → Q o v s) :
    (await l ticket).Meets c Q w s := by
  cases ticket with
  | ready a => exact hready a rfl
  | flight id =>
    refine (Task.meets_await _ _).mpr ((hflight id rfl).mono fun v s hv => ⟨?_, ?_⟩)
    · simpa using hv.1
    · intro o s' ho
      simp only [Option.map_eq_some_iff, Prod.mk.injEq] at ho
      obtain ⟨o, ho, rfl, rfl⟩ := ho
      exact hv.2 o ho

/-- Nothing is said of what a flight comes to: whoever asks for it gets some outcome of a flight whose
work keeps to the contract. -/
theorem meets_join_await {l : Lens σ (FlightTable κ ν)} {key : κ} {work : Task σ (Except Failure ν)}
    (hc : c.Orderly) (hput : ∀ w s t, c.holds w s → c.holds w (l.set t s)) (hs : c.holds w s)
    {Q : Except Failure ν → ω → σ → Prop} (hwork : ∀ v s, c.others w v → c.holds v s →
      work.MeetsFrom c true (fun _ => c.holds) v s)
    (hQ : ∀ r v s, c.others w v → c.holds v s → Q r v s) :
    (join l key (fun _ => none) (fun s => ((), s)) (fun _ => work) >>= await l).Meets c Q w s := by
  have hawait {id : FlightId} {s : σ} (hs : c.holds w s) : (await l (.flight id)).Meets c Q w s :=
    meets_await (by simp) fun _ _ => ⟨w, hc.own_refl w, hs, fun v s hv hs =>
      ⟨fun _ => hc.stalls s, fun r _ => hQ r v s hv hs⟩⟩
  rw [Task.meets_then]
  refine meets_join (fun _ _ => hawait (hput _ _ _ hs)) (by simp) fun _ _ => ?_
  refine ⟨w, hc.own_refl w, fun _ v s hv hs => ?_, hawait (hput _ _ _ hs)⟩
  exact Task.MeetsFrom.bind ((hwork v s hv hs).mono fun _ v s hs _ _ =>
    ⟨v, hc.own_refl v, hput _ _ _ hs⟩)

section Keeping

variable {G : σ → σ → Prop}

/-- Joining a flight changes what its work changes, and the table. -/
theorem keeps_join {l : Lens σ (FlightTable κ ν)} {key : κ} {settled : σ → Option ν}
    {begin : σ → β × σ} {work : β → Task σ (Except Failure ν)} (hl : ∀ s t, G s (l.set t s))
    (hbegin : ∀ s t, G s (begin (l.set t s)).2) (hwork : ∀ b, (work b).Keeps G) :
    (join l key settled begin work).Keeps G := by
  refine ⟨fun t s => ?_, fun joined => ?_⟩
  · dsimp only
    split
    · exact hl s _
    · exact hl s _
    · exact hbegin s _
  · obtain ⟨_ | ⟨id, b⟩, ticket⟩ := joined
    · trivial
    · refine ⟨Task.Keeps.bind (hwork b) fun outcome => ?_, fun _ => trivial⟩
      exact Task.keeps_modify fun s => hl s _

omit [BEq κ] in
theorem keeps_await (hG : ∀ s, G s s) (l : Lens σ (FlightTable κ ν)) (ticket : Ticket ν) :
    (await l ticket).Keeps G := by
  cases ticket with
  | ready a => trivial
  | flight id =>
    refine Task.keeps_await fun s o s' ho => ?_
    obtain ⟨_, -, heq⟩ := Option.map_eq_some_iff.mp ho
    cases heq
    exact hG s

/-- Who answers for the work of a flight answers for joining it. -/
theorem answers_join {R : σ → σ → Prop} {l : Lens σ (FlightTable κ ν)} {key : κ}
    {settled : σ → Option ν} {begin : σ → β × σ} {work : β → Task σ (Except Failure ν)}
    (hl : ∀ s t, G s (l.set t s)) (hbegin : ∀ s t, G s (begin (l.set t s)).2)
    (hwork : ∀ b, (work b).Answers G R fun _ => True) :
    (join l key settled begin work).Answers G R fun _ => True := by
  have hflight (b : β) (id : FlightId) :
      ((work b).bind fun outcome => Task.modify (l.modify (·.land key id outcome))).Answers G R
        fun _ => True := (hwork b).bind fun outcome _ t s => ⟨hl s _, trivial⟩
  intro t s
  dsimp only
  split
  · exact ⟨hl s _, trivial⟩
  · exact ⟨hl s _, trivial⟩
  · exact ⟨hbegin s _, hflight _ _, fun _ => trivial⟩

end Keeping

theorem zoom_join {l : Lens σ τ} (hl : l.IsLawful) (p : Lens τ (FlightTable κ ν)) (key : κ)
    (settled : τ → Option ν) (begin : τ → β × τ) (work : β → Task τ (Except Failure ν)) :
    (join p key settled begin work).zoom l = join (l.andThen p) key (fun s => settled (l.get s))
      (l.lift begin) fun b => (work b).zoom l := by
  simp only [join, Task.zoom]
  congr 1
  · funext now s
    simp only [Lens.lift, Lens.andThen]
    cases (p.get (l.get s)).request key (settled (l.get s)) with
    | mk answer t =>
      cases answer with
      | joined id => rfl
      | settled v => rfl
      | started id => simp only [hl.get_set, hl.set_set]
  · funext started
    obtain ⟨_ | ⟨id, seen⟩, ticket⟩ := started
    · rfl
    · simp only [Task.zoom, Task.zoom_bind]
      rfl

omit [BEq κ] in
theorem zoom_await {l : Lens σ τ} (hl : l.IsLawful) (p : Lens τ (FlightTable κ ν))
    (ticket : Ticket ν) : (await p ticket).zoom l = await (l.andThen p) ticket := by
  cases ticket with
  | ready v => rfl
  | flight id =>
    simp [await, Task.await, Task.zoom, Lens.andThen, hl.set_get, Function.comp_def]

end LanguageServer.FlightTable
