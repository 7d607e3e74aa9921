import LanguageServer.Analysis.Store
import LanguageServer.Proofs.Flight.Sharing
import LanguageServer.Proofs.Task.Guests
import LanguageServer.Proofs.Task.Joint

/-! What a caller meets who asks a store for an analysis, and what the flight meets that is begun
for it. -/
namespace LanguageServer.AnalysisStore

variable {ω σ τ : Type}

def begun (s : AnalysisStore) (f : Fingerprint) : AnalysisStore :=
  { s with flights := s.flights.begun f }

/-- A store after a flight has landed: its outcome is offered, then told to those who wait. -/
def landed (s : AnalysisStore) (f : Fingerprint) (started : Epoch) (id : FlightId)
    (o : Except Failure Analysis) : AnalysisStore :=
  let s := match o with
    | .ok a => s.offer f started a
    | .error _ => s
  { s with flights := s.flights.land f id o }

theorem flights_landed (s : AnalysisStore) (f : Fingerprint) (started : Epoch) (id : FlightId)
    (o : Except Failure Analysis) :
    (s.landed f started id o).flights = s.flights.land f id o := by
  cases o with
  | error e => rfl
  | ok a =>
    simp only [landed, offer]
    split <;> rfl

/-- What is held after a landing was held before, or it is what was found and accepted. -/
theorem mem_entries_landed {s : AnalysisStore} {f : Fingerprint} {started : Epoch} {id : FlightId}
    {o : Except Failure Analysis} {p : Url × StoredAnalysis}
    (hp : p ∈ (s.landed f started id o).entries.pairs) : p ∈ s.entries.pairs ∨
      ∃ a, o = .ok a ∧ s.accepts f started = true ∧ p = (f.url, ⟨f, a⟩) := by
  cases o with
  | error e => exact .inl hp
  | ok a =>
    simp only [landed, offer] at hp
    split at hp
    · next haccepts => exact (Table.mem_insert hp).imp_right fun h => ⟨a, rfl, haccepts, h⟩
    · exact .inl hp

/-- A flight from its begin until it has landed. -/
def flight (l : Lens σ AnalysisStore) (f : Fingerprint) (started : Epoch) (id : FlightId)
    (compute : Task σ (Except Failure Analysis)) : Task σ Unit :=
  (do
    let outcome ← compute
    match outcome with
    | .ok a => Task.modify (l.modify (·.offer f started a))
    | .error _ => pure ()
    return outcome : Task σ (Except Failure Analysis)).bind fun outcome =>
      Task.modify ((l.andThen flightsLens).modify (·.land f id outcome))

theorem flight_eq (l : Lens σ AnalysisStore) (f : Fingerprint) (started : Epoch) (id : FlightId)
    (compute : Task σ (Except Failure Analysis)) : flight l f started id compute =
      compute.bind fun
        | .ok a => (Task.modify (l.modify (·.offer f started a))).bind fun _ =>
          Task.modify ((l.andThen flightsLens).modify (·.land f id (.ok a)))
        | .error e => Task.modify ((l.andThen flightsLens).modify (·.land f id (.error e))) := by
  refine (Task.bind_assoc _ _ _).trans (congrArg _ (funext fun o => ?_))
  cases o <;> rfl

theorem flightsLens_isLawful : flightsLens.IsLawful where
  get_set _ _ := rfl
  set_get _ := rfl
  set_set _ _ _ := rfl

variable {c : Contract ω σ} {l : Lens σ AnalysisStore} (hl : l.IsLawful) {f : Fingerprint}
  {compute : Task σ (Except Failure Analysis)} {w : ω} {s : σ}
include hl

theorem meets_flight {started : Epoch} {id : FlightId} {waited : Bool} {Q : Unit → ω → σ → Prop}
    (h : compute.MeetsFrom c waited
      (fun o v s => Q () v (l.set ((l.get s).landed f started id o) s)) w s) :
    (flight l f started id compute).MeetsFrom c waited Q w s := by
  refine Task.MeetsFrom.bind (Task.MeetsFrom.bind (h.mono fun o v s hQ => ?_))
  cases o with
  | ok a =>
    intro waited now waited now
    simpa [Lens.modify, Lens.andThen, flightsLens, hl.get_set, hl.set_set, landed] using hQ
  | error e =>
    intro waited waited now
    simpa [Lens.modify, Lens.andThen, flightsLens, landed] using hQ

theorem meets_getOrCompute (hc : c.Orderly) {Q : Except Failure Analysis → ω → σ → Prop}
    (hheld : ∀ a, (l.get s).get? f = some a → Q (.ok a) w s)
    (hjoined : ∀ id, (l.get s).flights.running.find? f = some id →
      c.Parks w s fun v s => ∀ o, (l.get s).flights.outcome? id = some o → Q o v s)
    (hstarted : (l.get s).flights.running.find? f = none →
      ∃ v, c.own w v ∧
        (∀ v' s', c.others v v' → c.holds v' s' →
          (flight l f ((l.get s).epoch f.url) (l.get s).flights.next compute).MeetsFrom c true
            (fun _ => c.Rests) v' s') ∧
        c.Parks v (l.set ((l.get s).begun f) s) fun v s' => ∀ o,
          (l.get s').flights.outcome? (l.get s).flights.next = some o → Q o v s') :
    (getOrCompute l f compute).Meets c Q w s := by
  have hawait {v : ω} {s : σ} {id : FlightId} (hparks : c.Parks v s fun v s => ∀ o,
      (l.get s).flights.outcome? id = some o → Q o v s) :
      (FlightTable.await (l.andThen flightsLens) (.flight id)).Meets c Q v s := by
    refine FlightTable.meets_await (by simp) fun i hi => ?_
    cases hi
    exact hparks.mono fun v s hQ => ⟨fun _ => hc.stalls s, hQ⟩
  have hsame : (l.andThen flightsLens).set ((l.andThen flightsLens).get s) s = s := hl.set_get s
  rw [getOrCompute, Task.meets_then, Task.meets_read]
  cases hhit : (l.get s).get? f with
  | some a => exact hheld a hhit
  | none =>
    simp only [Task.meets_then, Task.meets_read]
    refine FlightTable.meets_join (fun id hrun => ?_) (fun a _ hset => ?_) fun hrun _ => ?_
    · rw [hsame]
      exact hawait (hjoined id hrun)
    · simp [hhit] at hset
    · obtain ⟨v, hv, hflight, hparks⟩ := hstarted hrun
      exact ⟨v, hv, fun _ => hflight, hawait hparks⟩

omit hl in
theorem zoom_getOrCompute {l : Lens σ τ} (hl : l.IsLawful) (p : Lens τ AnalysisStore)
    (f : Fingerprint) (compute : Task τ (Except Failure Analysis)) :
    (getOrCompute p f compute).zoom l = getOrCompute (l.andThen p) f (compute.zoom l) := by
  have hread {α : Type} (g : τ → α) :
      (Task.read g).zoom l = Task.read fun s => g (l.get s) := by
    simp [Task.read, Task.zoom, Lens.lift, hl.set_get]
  have hbegin : l.lift (fun s : τ => ((), s)) = fun s => ((), s) := by
    simp [funext_iff, Lens.lift, hl.set_get]
  simp only [getOrCompute, Bind.bind, Task.zoom_bind]
  rw [hread]
  refine congrArg _ (funext fun held => ?_)
  cases held with
  | some a => rfl
  | none =>
    dsimp only
    rw [Task.zoom_bind, hread]
    refine congrArg _ (funext fun started => ?_)
    simp only [Task.zoom_bind, FlightTable.zoom_join hl, FlightTable.zoom_await hl, hbegin]
    congr 2
    funext _
    congr 1
    funext outcome
    cases outcome with
    | ok a => rfl
    | error e => rfl

end LanguageServer.AnalysisStore
