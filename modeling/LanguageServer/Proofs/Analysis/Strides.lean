import LanguageServer.Proofs.Analysis.StoreRun
import LanguageServer.Proofs.Flight.Run

/-! The history of an analysis store step by step, in which what a flight finds is kept at one moment
and its flight lands at a later one. A flight begins, finds something and fails only where nothing is
held for its text. -/
namespace LanguageServer.AnalysisStore

/-- A store after a flight has landed that has nothing left to keep. -/
def land (s : AnalysisStore) (f : Fingerprint) (id : FlightId) (o : Except Failure Analysis) :
    AnalysisStore :=
  { s with flights := s.flights.land f id o }

/-- What a store may become in one step. -/
inductive Stride (s : AnalysisStore) : AnalysisStore → Prop
  | rest : Stride s s
  | edit (e : Edit) : Stride s (e.apply s)
  | begin (f : Fingerprint) : s.flights.running.find? f = none → s.get? f = none →
    Stride s (s.begun f)
  | keep (f : Fingerprint) (id : FlightId) (started : Epoch) (a : Analysis) :
    s.flights.running.find? f = some id → s.get? f = none → Stride s (s.offer f started a)
  | land (f : Fingerprint) (id : FlightId) (a : Analysis) :
    s.flights.running.find? f = some id → Stride s (s.land f id (.ok a))
  | fail (f : Fingerprint) (id : FlightId) (e : Failure) :
    s.flights.running.find? f = some id → s.get? f = none → Stride s (s.land f id (.error e))

/-- The stores that there have been, newest first. -/
inductive Course : List AnalysisStore → Prop
  | start : Course [.empty]
  | stride {s s' : AnalysisStore} {h : List AnalysisStore} :
    Course (s :: h) → Stride s s' → Course (s' :: s :: h)

variable {s s' : AnalysisStore} {h newer : List AnalysisStore} {f g : Fingerprint} {id : FlightId}

theorem flights_edit (e : Edit) (s : AnalysisStore) : (e.apply s).flights = s.flights := by
  cases e <;> rfl

theorem flights_offer (s : AnalysisStore) (f : Fingerprint) (started : Epoch) (a : Analysis) :
    (s.offer f started a).flights = s.flights := by
  rw [offer]
  split <;> rfl

theorem get?_edit (e : Edit) (hf : s.get? f = none) : (e.apply s).get? f = none := by
  cases e with
  | track g => exact hf
  | forget u =>
    simp only [Edit.apply, forget, get?, Table.find?_erase] at hf ⊢
    split
    · rfl
    · exact hf
  | clear => rfl

/-- What is kept for one text is no analysis of another. -/
theorem get?_offer (started : Epoch) (a : Analysis) (hne : f ≠ g) (hg : s.get? g = none) :
    (s.offer f started a).get? g = none := by
  rw [offer]
  split
  · simp only [get?, Table.find?_insert] at hg ⊢
    split
    · simp [hne]
    · exact hg
  · exact hg

theorem Course.tail {x : AnalysisStore} (hc : Course (x :: s :: h)) : Course (s :: h) ∧ Stride s x := by
  cases hc with
  | stride hc hs => exact ⟨hc, hs⟩

theorem Course.of_append (hc : Course (newer ++ s :: h)) : Course (s :: h) := by
  induction newer with
  | nil => exact hc
  | cons x newer ih =>
    cases newer with
    | nil => exact hc.tail.1
    | cons y newer => exact ih hc.tail.1

/-- A flight begins for a text just where nothing is held for it. -/
theorem Stride.get?_of_begins (hs : Stride s s') (hb : s.flights.Begins s'.flights f id) :
    s.get? f = none := by
  have hnext : s'.flights.next ≠ s.flights.next := by
    rw [hb.next]
    exact Nat.succ_ne_self _
  cases hs with
  | rest => exact absurd rfl hnext
  | edit e => exact absurd (congrArg _ (flights_edit e s)) hnext
  | begin g hrun hg => exact hb.key_eq hrun ▸ hg
  | keep g n started a => exact absurd (congrArg _ (flights_offer s g started a)) hnext
  | land g n a => exact absurd rfl hnext
  | fail g n e => exact absurd rfl hnext

/-- A flight that fails changes no entry, and nothing is held for its text. -/
theorem Stride.failed (hs : Stride s s') (hrun : s.flights.running.find? f = some id)
    (ht : s.flights.IsOrderly) {e : Failure} (hended : s'.flights.outcome? id = some (.error e)) :
    s'.entries = s.entries ∧ s'.get? f = none ∧ s'.flights.isRunning f = false := by
  have hmem := Table.mem_of_find? hrun
  have hwaiting : s.flights.outcome? id = none := (ht.waiting _ hmem).2
  cases hs with
  | rest => cases hwaiting.symm.trans hended
  | edit e => cases hwaiting.symm.trans (flights_edit e s ▸ hended)
  | begin g => cases hwaiting.symm.trans hended
  | keep g n started a => cases hwaiting.symm.trans (flights_offer s g started a ▸ hended)
  | land g n a hg =>
    rw [AnalysisStore.land, FlightTable.outcome?_land, hwaiting] at hended
    split at hended <;> cases hended
  | fail g n r hg hnone =>
    have hended' := hended
    rw [AnalysisStore.land, FlightTable.outcome?_land, hwaiting] at hended'
    split at hended'
    · next hid =>
      obtain rfl : n = id := eq_of_beq hid
      obtain rfl : g = f :=
        congrArg Prod.fst (ht.single _ (Table.mem_of_find? hg) _ hmem rfl)
      refine ⟨rfl, hnone, Bool.eq_false_iff.mpr fun hrunning => ?_⟩
      rw [FlightTable.isRunning, Table.contains_eq_isSome_find?, Option.isSome_iff_exists] at hrunning
      obtain ⟨i, hi⟩ := hrunning
      have hturn : s.flights.Turn (s.land g n (.error r)).flights := .land g n _ hg
      obtain ⟨hi, hne⟩ := (hturn.ending ht hwaiting hended g i).mp hi
      exact hne (Option.some.inj (hi.symm.trans hrun))
    · cases hended'

end LanguageServer.AnalysisStore
