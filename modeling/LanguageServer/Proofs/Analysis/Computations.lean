import LanguageServer.Proofs.Analysis.Coalesce

/-! What callers who ask a store for analyses can rely on: how one call is answered, and what becomes
of the store in any run. A computation that fails leaves no trace. -/
namespace LanguageServer.AnalysisStore

variable {σ : Type}

/-- How calls for an analysis are answered. What is held is given back; else the call joins the
flight of its text; else it begins a flight, which computes the analysis, offers it to the store and
lands. One that comes to an error offers nothing. -/
structure AnswersCalls (l : Lens σ AnalysisStore) : Prop where
  gives : ∀ (f : Fingerprint) (compute : Task σ (Except Failure Analysis)) (now : Instant)
    (e : Machine.Effects σ) (a : Analysis), (l.get e.state).get? f = some a →
    Machine.advance now (getOrCompute l f compute) e = (e, .done (.ok a))
  joins : ∀ (f : Fingerprint) (compute : Task σ (Except Failure Analysis)) (now : Instant)
    (e : Machine.Effects σ) (id : FlightId), (l.get e.state).get? f = none →
    (l.get e.state).flights.running.find? f = some id →
    Machine.advance now (getOrCompute l f compute) e =
      (e, FlightTable.await (l.andThen flightsLens) (.flight id))
  begins : ∀ (f : Fingerprint) (compute : Task σ (Except Failure Analysis)) (now : Instant)
    (e : Machine.Effects σ), (l.get e.state).get? f = none →
    (l.get e.state).flights.running.find? f = none →
    Machine.advance now (getOrCompute l f compute) e =
      let s := l.get e.state
      ({ e with
          state := l.set (s.begun f) e.state
          next := e.next + 1
          spawned := e.spawned ++ [(e.next, flight l f (s.epoch f.url) s.flights.next compute)] },
        FlightTable.await (l.andThen flightsLens) (.flight s.flights.next))
  keeps : ∀ (f : Fingerprint) (started : Epoch) (id : FlightId) (a : Analysis),
    flight l f started id (.done (.ok a)) = (Task.modify (l.modify (·.offer f started a))).bind fun _ =>
      Task.modify ((l.andThen flightsLens).modify (·.land f id (.ok a)))
  fails : ∀ (f : Fingerprint) (started : Epoch) (id : FlightId) (r : Failure),
    flight l f started id (.done (.error r)) =
      Task.modify ((l.andThen flightsLens).modify (·.land f id (.error r)))

variable {l : Lens σ AnalysisStore}

theorem answersCalls (hl : l.IsLawful) : AnswersCalls l where
  gives f compute now e a ha := by
    simp [getOrCompute, Bind.bind, Task.bind, Task.read, Machine.advance, ha]
    rfl
  joins f compute now e id hnone hrun := by
    simp [getOrCompute, Bind.bind, Task.bind, Task.read, Machine.advance, FlightTable.join,
      FlightTable.request, FlightTable.await, Task.await, Lens.andThen, flightsLens, hnone, hrun, hl.set_get]
  begins f compute now e hnone hrun := by
    simp [getOrCompute, Bind.bind, Task.bind, Task.read, Machine.advance, FlightTable.join,
      FlightTable.request, FlightTable.await, Task.await, Lens.andThen, flightsLens, hnone, hrun]
    exact ⟨rfl, rfl⟩
  keeps f started id a := by
    rw [flight_eq]
    rfl
  fails f started id r := by
    rw [flight_eq]
    rfl


/-- What becomes of a store in a run with the callers `cs`, told by all stores that there have been,
newest first. A flight begins for a text just where nothing is held for it and no flight is on its
way; one that fails changes no entry and leaves its text neither held nor on the way. -/
structure KeepsSharing (l : Lens σ AnalysisStore) (cs : List TaskId) (g : List AnalysisStore)
    (m : Machine σ) : Prop where
  course : Course g
  current : ∃ older, g = l.get m.state :: older
  flights : FlightTable.KeepsFlights (l.andThen flightsLens) cs (g.map (·.flights)) m
  begins : ∀ newer s' s older, g = newer ++ s' :: s :: older → ∀ f id,
    s.flights.Begins s'.flights f id → s.get? f = none ∧ s.flights.isRunning f = false
  fails : ∀ newer s' s older, g = newer ++ s' :: s :: older → ∀ f id e,
    s.flights.running.find? f = some id → s'.flights.outcome? id = some (.error e) →
    s'.entries = s.entries ∧ s'.get? f = none ∧ s'.flights.isRunning f = false

theorem CallRun.keepsSharing {cs : List TaskId} {h : List AnalysisStore} {m : Machine σ}
    (hl : l.IsLawful) (hr : CallRun l cs h m) : ∃ g, h.Sublist g ∧ KeepsSharing l cs g m := by
  obtain ⟨w, hm, hh, rfl⟩ := hr.binds hl
  have hs := hm.holds
  refine ⟨w.told.stores, hh, hs.course, hs.current, ?_, fun newer s' s older hg f id hb => ?_,
    fun newer s' s older hg f id e hrun hended => ?_⟩
  · refine hs.flights.keepsFlights fun i f id hi => (hm.live i).mp ?_
    cases hrole : w.role i <;> simp [hrole, Duty.part] at hi <;> simp [Pact.IsLive, callPact]
  · obtain ⟨-, hstride⟩ := (hg ▸ hs.course).of_append.tail
    refine ⟨hstride.get?_of_begins hb, ?_⟩
    rw [FlightTable.isRunning, Table.contains_eq_isSome_find?, hb.vacant]
    rfl
  · obtain ⟨-, hstride⟩ := (hg ▸ hs.course).of_append.tail
    have hc : FlightTable.Chronicle (w.told.stores.map (·.flights)) := hs.flights.chronicle
    rw [hg, List.map_append, List.map_cons, List.map_cons] at hc
    exact hstride.failed hrun hc.of_append.tail.1.isOrderly hended

/-- Requests for one key share one computation, and a computation that fails leaves no trace: so it
is for the flights of any table and for the analyses of a store, in every run of their callers. -/
theorem computations_shared :
    (∀ {σ κ ν : Type} [BEq κ] [LawfulBEq κ] (l : Lens σ (FlightTable κ ν)), l.IsLawful →
      FlightTable.AnswersRequests l ∧ ∀ cs h m, FlightTable.Run l cs h m →
        ∃ g, h.Sublist g ∧ FlightTable.KeepsFlights l cs g m) ∧
    ∀ {σ : Type} (l : Lens σ AnalysisStore), l.IsLawful →
      AnswersCalls l ∧ ∀ cs h m, CallRun l cs h m → ∃ g, h.Sublist g ∧ KeepsSharing l cs g m :=
  ⟨fun _ hl => ⟨FlightTable.answersRequests hl, fun _ _ _ hr => hr.keepsFlights hl⟩,
    fun _ hl => ⟨answersCalls hl, fun _ _ _ hr => hr.keepsSharing hl⟩⟩

/-- One of two callers is dropped while the analysis that both wait for is computed, and then the
computation fails; and a flight of another table lands. -/
theorem computations_shared_failed :
    (∃ h, ∃ m : Machine (FlightTable Nat Nat), FlightTable.Run ⟨id, fun t _ => t⟩ [0] h m ∧
      (m.state.outcome? 1).any (·.isOk) = true ∧
      ∃ g, h.Sublist g ∧ FlightTable.KeepsFlights ⟨id, fun t _ => t⟩ [0] g m) ∧
    ∃ h, ∃ m : Machine AnalysisStore, CallRun ⟨id, fun s _ => s⟩ [1, 0] h m ∧
      m.tasks.map (·.1) = [1] ∧ (m.state.flights.outcome? 1).any (!·.isOk) = true ∧
      ∃ g, h.Sublist g ∧ KeepsSharing ⟨id, fun s _ => s⟩ [1, 0] g m := by
  constructor
  · let l : Lens (FlightTable Nat Nat) (FlightTable Nat Nat) := ⟨id, fun t _ => t⟩
    have hshares : FlightTable.Shares l ((FlightTable.join l 7 (fun _ => none) (fun t => ((), t))
        fun _ => .done (.ok 3)).bind fun _ => .done ()) :=
      .bind (.join 7 _ (fun _ => rfl) fun _ => .keeps trivial trivial) fun _ => .keeps trivial trivial
    have hmoves : (((((Machine.start FlightTable.empty).spawn ((FlightTable.join
        (⟨id, fun t _ => t⟩ : Lens (FlightTable Nat Nat) (FlightTable Nat Nat)) 7 (fun _ => none)
        (fun t => ((), t)) fun _ => .done (.ok 3)).bind fun _ => .done ())).step? 0).bind fun m =>
          m.step? 1).map fun m => (m.state.outcome? 1).any (·.isOk)) = some true := by decide +kernel
    obtain ⟨n, hn, htold⟩ := Option.map_eq_some_iff.mp hmoves
    obtain ⟨m, hm, hn⟩ := Option.bind_eq_some_iff.mp hn
    have hrun := ((FlightTable.Run.call (.start _ rfl) hshares).move 0 hm).move 1 hn
    exact ⟨_, n, hrun, htold,
      (computations_shared.1 l ⟨fun _ _ => rfl, fun _ => rfl, fun _ _ _ => rfl⟩).2 _ _ _ hrun⟩
  · let l : Lens AnalysisStore AnalysisStore := ⟨id, fun s _ => s⟩
    have hasks : Asks l ((getOrCompute l (.version default 1)
        (.done (.error .notStarted))).bind fun _ => .done ()) :=
      .bind (.call _ (.keeps trivial trivial)) fun _ => .keeps trivial trivial
    have hmoves : (((((((Machine.start AnalysisStore.empty).spawn
        ((getOrCompute ⟨id, fun s _ => s⟩ (.version default 1) (.done (.error .notStarted))).bind
          fun _ => .done ())).spawn
        ((getOrCompute ⟨id, fun s _ => s⟩ (.version default 1) (.done (.error .notStarted))).bind
          fun _ => .done ())).step? 0).bind fun m => m.step? 1).bind fun m =>
        (m.spawn (Task.abort 0)).step? 3).bind fun m => m.step? 2).map (fun m =>
          m.tasks.map (·.1) == [1] && (m.state.flights.outcome? 1).any (!·.isOk)) =
      some true := by decide +kernel
    obtain ⟨q, hq, htold⟩ := Option.map_eq_some_iff.mp hmoves
    obtain ⟨p, hp, hq⟩ := Option.bind_eq_some_iff.mp hq
    obtain ⟨n, hn, hp⟩ := Option.bind_eq_some_iff.mp hp
    obtain ⟨m, hm, hn⟩ := Option.bind_eq_some_iff.mp hn
    have hjoined := ((((CallRun.start _ rfl).call hasks).call hasks).move 0 hm).move 1 hn
    have hrun := ((hjoined.drop 0 (by decide)).move 3 hp).move 2 hq
    obtain ⟨htasks, hfailed⟩ := Bool.and_eq_true_iff.mp htold
    exact ⟨_, q, hrun, eq_of_beq htasks, hfailed,
      (computations_shared.2 l ⟨fun _ _ => rfl, fun _ => rfl, fun _ _ _ => rfl⟩).2 _ _ _ hrun⟩

end LanguageServer.AnalysisStore
