import LanguageServer.Analysis.Basic
import LanguageServer.Document.Store
import LanguageServer.Flight.Table

/-! The latest analysis of every document. Requests for one fingerprint share one computation, and
what arrives after its document was edited, closed or invalidated goes to those who wait for it and
is not kept. -/
namespace LanguageServer

/-- How often a document, and the whole store, have been invalidated. -/
structure Epoch where
  generation : Nat
  document : Nat
  deriving DecidableEq, Inhabited

/-- An analysis and the text it describes. -/
structure StoredAnalysis where
  fingerprint : Fingerprint
  analysis : Analysis
  deriving Inhabited

structure AnalysisStore where
  entries : Table Url StoredAnalysis
  /-- What the editor shows of the open documents. -/
  tracked : Table Url Fingerprint
  epochs : Table Url Nat
  generation : Nat
  flights : FlightTable Fingerprint Analysis
  deriving Inhabited

namespace AnalysisStore

variable {σ : Type}

def empty : AnalysisStore := ⟨.empty, .empty, .empty, 0, .empty⟩

/-- The analysis of exactly this text. -/
def get? (s : AnalysisStore) (f : Fingerprint) : Option Analysis :=
  ((s.entries.find? f.url).filter (·.fingerprint = f)).map (·.analysis)

/-- The latest analysis of a document, whichever text it describes. -/
def latest? (s : AnalysisStore) (u : Url) : Option StoredAnalysis := s.entries.find? u

def current? (s : AnalysisStore) (u : Url) : Option Fingerprint := s.tracked.find? u

def size (s : AnalysisStore) : Nat := s.entries.size

/-- All analyses, by URL. -/
def settled (s : AnalysisStore) : List (Url × Analysis) :=
  (s.entries.pairs.map fun e => (e.1, e.2.analysis)).mergeSort fun a b => a.1.le b.1

def urls (s : AnalysisStore) : List Url := s.settled.map (·.1)

def epoch (s : AnalysisStore) (u : Url) : Epoch := ⟨s.generation, (s.epochs.find? u).getD 0⟩

/-- Whether an analysis begun at an epoch may be kept: no invalidation has come since, and the
editor shows no other text. -/
def accepts (s : AnalysisStore) (f : Fingerprint) (started : Epoch) : Bool :=
  s.epoch f.url = started && (s.current? f.url).all (· = f)

/-- Keeps an analysis if it may be kept. -/
def offer (s : AnalysisStore) (f : Fingerprint) (started : Epoch) (a : Analysis) : AnalysisStore :=
  if s.accepts f started then { s with entries := s.entries.insert f.url ⟨f, a⟩ } else s

/-- Notes which text of an open document the editor shows. -/
def track (s : AnalysisStore) (f : Fingerprint) : AnalysisStore :=
  { s with tracked := s.tracked.insert f.url f }

/-- Drops all that is held for a document, and what is still being computed for it. -/
def forget (s : AnalysisStore) (u : Url) : AnalysisStore :=
  { s with
    epochs := s.epochs.insert u ((s.epochs.find? u).getD 0 + 1)
    entries := s.entries.erase u
    tracked := s.tracked.erase u }

/-- Drops everything, and what is still being computed. -/
def clear (s : AnalysisStore) : AnalysisStore :=
  { s with generation := s.generation + 1, entries := .empty, tracked := .empty }

def flightsLens : Lens AnalysisStore (FlightTable Fingerprint Analysis) :=
  ⟨(·.flights), fun f s => { s with flights := f }⟩

/-- The analysis of a text: the one held, the one being computed, or a new one. -/
def getOrCompute (l : Lens σ AnalysisStore) (f : Fingerprint)
    (compute : Task σ (Except Failure Analysis)) : Task σ (Except Failure Analysis) := do
  match ← Task.read fun s => (l.get s).get? f with
  | some a => return .ok a
  | none =>
    let started ← Task.read fun s => (l.get s).epoch f.url
    let ticket ← FlightTable.join (l.andThen flightsLens) f (fun s => (l.get s).get? f)
      (fun s => ((), s)) fun _ => do
        let outcome ← compute
        match outcome with
        | .ok a => Task.modify (l.modify (·.offer f started a))
        | .error _ => pure ()
        return outcome
    FlightTable.await (l.andThen flightsLens) ticket

end AnalysisStore
end LanguageServer
