import LanguageServer.Failure
import LanguageServer.Table
import LanguageServer.Task.Basic

/-! Flights: computations in progress, one for each key, that any number of callers share. A
flight leaves the table when it ends, before anyone sees its outcome, and outcomes are kept by
flight, so that all who joined see the same one. -/
namespace LanguageServer

abbrev FlightId := Nat

structure FlightTable (κ ν : Type) where
  running : Table κ FlightId
  outcomes : Table FlightId (Except Failure ν)
  next : FlightId
  deriving Inhabited

/-- What a caller holds: a flight to wait for, or a value that was there already. -/
inductive Ticket (ν : Type) where
  | flight (id : FlightId)
  | ready (value : ν)

namespace FlightTable

variable {κ ν σ : Type} [BEq κ]

def empty : FlightTable κ ν := ⟨.empty, .empty, 1⟩

/-- How a request for a key is met. -/
inductive Answer (ν : Type) where
  | joined (id : FlightId)
  | settled (value : ν)
  | started (id : FlightId)

/-- Joins the flight of a key; where there is none, takes the settled value; where there is none
either, begins a flight. -/
def request (t : FlightTable κ ν) (key : κ) (settled : Option ν) : Answer ν × FlightTable κ ν :=
  match t.running.find? key with
  | some id => (.joined id, t)
  | none =>
    match settled with
    | some v => (.settled v, t)
    | none => (.started t.next, { t with running := t.running.insert key t.next, next := t.next + 1 })

/-- Ends a flight: it leaves the table, if the key is still its own, and its outcome is kept. -/
def land (t : FlightTable κ ν) (key : κ) (id : FlightId) (outcome : Except Failure ν) :
    FlightTable κ ν :=
  { t with
    running := t.running.filter fun k flight => !(k == key && flight == id)
    outcomes := t.outcomes.insert id outcome }

def isRunning (t : FlightTable κ ν) (key : κ) : Bool := t.running.contains key

/-- The outcome of a flight that has ended. -/
def outcome? (t : FlightTable κ ν) (id : FlightId) : Option (Except Failure ν) := t.outcomes.find? id

/-- Meets a request. If a flight begins, `begin` happens at once and hands what it saw to the work,
which runs on its own. -/
def join {β : Type} (l : Lens σ (FlightTable κ ν)) (key : κ) (settled : σ → Option ν)
    (begin : σ → β × σ) (work : β → Task σ (Except Failure ν)) : Task σ (Ticket ν) :=
  .act (fun _ s =>
    let (answer, t) := (l.get s).request key (settled s)
    match answer with
    | .joined id => ((none, Ticket.flight id), l.set t s)
    | .settled v => ((none, Ticket.ready v), l.set t s)
    | .started id =>
      let (seen, s) := begin (l.set t s)
      ((some (id, seen), Ticket.flight id), s))
    fun (started : Option (FlightId × β) × Ticket ν) => match started.1 with
      | none => .done started.2
      | some (id, seen) =>
        .spawn ((work seen).bind fun outcome => Task.modify (l.modify (·.land key id outcome)))
          fun _ => .done started.2

def await (l : Lens σ (FlightTable κ ν)) : Ticket ν → Task σ (Except Failure ν)
  | .ready v => .done (.ok v)
  | .flight id => Task.await fun s => ((l.get s).outcome? id).map fun o => (o, s)

end FlightTable
end LanguageServer
