import LanguageServer.Duration

/-! Cooperative tasks over a shared state. A task acts on the state in steps and gives up control
only where it waits, so what lies between two waits happens at once. -/
namespace LanguageServer

/-- The number of a task, given out in the order of spawning. -/
abbrev TaskId := Nat

/-- What a task still has to do before it ends with a value of type `α`. -/
inductive Task (σ : Type) : Type → Type 1
  | done {α : Type} (a : α) : Task σ α
  | act {α β : Type} (f : Instant → σ → β × σ) (k : β → Task σ α) : Task σ α
  /-- Waits until `ready` holds; the passing of `deadline` may make it so. -/
  | wait {α β : Type} (deadline : Option Instant) (ready : Instant → σ → Option (β × σ))
      (k : β → Task σ α) : Task σ α
  /-- Lets the others go first. -/
  | yield {α : Type} (k : Task σ α) : Task σ α
  /-- Lets another task run beside this one. -/
  | spawn {α : Type} (child : Task σ Unit) (k : TaskId → Task σ α) : Task σ α
  /-- Drops a task where it waits. -/
  | cancel {α : Type} (id : TaskId) (k : Task σ α) : Task σ α
  /-- Runs a body under a hold on the state that is released when the body ends, and also when the
  task is dropped inside it. -/
  | hold {α β : Type} (release : σ → σ) (body : Task σ β) (k : β → Task σ α) : Task σ α
  /-- Repeats a body until it yields a result; between two rounds others may run. -/
  | loop {α β γ : Type} (s : β) (body : β → Task σ (β ⊕ γ)) (k : γ → Task σ α) : Task σ α

namespace Task

universe u

variable {σ τ α β γ : Type}

/-- One task, then another that depends on its value. -/
def bind : Task σ α → (α → Task σ β) → Task σ β
  | .done a, g => g a
  | .act f k, g => .act f fun b => (k b).bind g
  | .wait d r k, g => .wait d r fun b => (k b).bind g
  | .yield k, g => .yield (k.bind g)
  | .spawn c k, g => .spawn c fun i => (k i).bind g
  | .cancel i k, g => .cancel i (k.bind g)
  | .hold r body k, g => .hold r body fun b => (k b).bind g
  | .loop s body k, g => .loop s body fun c => (k c).bind g

instance : Monad (Task σ) where
  pure := .done
  bind := bind

def modify (f : σ → σ) : Task σ Unit := .act (fun _ s => ((), f s)) .done

def read (f : σ → α) : Task σ α := .act (fun _ s => (f s, s)) .done

def update (f : σ → α × σ) : Task σ α := .act (fun _ s => f s) .done

def now : Task σ Instant := .act (fun t s => (t, s)) .done

/-- Waits until the state has something to give. -/
def await (ready : σ → Option (α × σ)) : Task σ α := .wait none (fun _ s => ready s) .done

def waitFor (p : σ → Bool) : Task σ Unit := await fun s => if p s then some ((), s) else none

/-- Waits until the state has something to give, `none` if a span passes before. -/
def awaitFor (span : Duration) (ready : σ → Option (α × σ)) : Task σ (Option α) := do
  let start ← now
  let limit := start.after span
  .wait (some limit) (fun t s => match ready s with
    | some (a, s) => some (some a, s)
    | none => if limit ≤ t then some (none, s) else none) .done

/-- Such a wait ends with what there is, or with the limit when there is nothing. -/
theorem given_or_late {ready : σ → Option (α × σ)} {limit t : Instant} {s s' : σ} {b : Option α}
    (h : (match ready s with
      | some (a, s) => some (some a, s)
      | none => if limit ≤ t then some (none, s) else none) = some (b, s')) :
    (∃ a, b = some a ∧ ready s = some (a, s')) ∨ b = none ∧ s' = s ∧ ready s = none ∧ limit ≤ t := by
  cases hr : ready s with
  | some r =>
    simp only [hr, Option.some.injEq, Prod.mk.injEq] at h
    obtain ⟨rfl, rfl⟩ := h
    exact .inl ⟨_, rfl, rfl⟩
  | none =>
    simp only [hr, Option.ite_none_right_eq_some, Option.some.injEq, Prod.mk.injEq] at h
    obtain ⟨hle, rfl, rfl⟩ := h
    exact .inr ⟨rfl, rfl, rfl, hle⟩

def sleep (span : Duration) : Task σ Unit := do
  let start ← now
  let limit := start.after span
  .wait (some limit) (fun t s => if limit ≤ t then some ((), s) else none) .done

/-- A point where other tasks may run. -/
def pause : Task σ Unit := await fun s => some ((), s)

/-- A point where other tasks do run if they can. -/
def giveWay : Task σ Unit := .yield (.done ())

def fork (child : Task σ Unit) : Task σ TaskId := .spawn child .done

def abort (id : TaskId) : Task σ Unit := .cancel id (.done ())

/-- Waits until a flag is down and keeps it up for the length of a body. -/
def exclusive (raised : σ → Bool) (set : Bool → σ → σ) (body : Task σ α) : Task σ α := do
  waitFor fun s => !raised s
  .act (fun _ s => ((), set true s)) fun _ => .hold (set false) body .done

def repeatFrom (s : β) (body : β → Task σ (β ⊕ γ)) : Task σ γ := .loop s body .done

/-- Runs a task for every element in turn. -/
def forEach {δ : Type u} (xs : List δ) (body : δ → Task σ Unit) : Task σ Unit :=
  match xs with
  | [] => .done ()
  | x :: rest => (body x).bind fun _ => forEach rest body

end Task

/-- A part of a state that can be read and replaced. -/
structure Lens (σ τ : Type) where
  get : σ → τ
  set : τ → σ → σ

namespace Lens

variable {σ τ υ α : Type}

def andThen (l : Lens σ τ) (m : Lens τ υ) : Lens σ υ :=
  ⟨fun s => m.get (l.get s), fun u s => l.set (m.set u (l.get s)) s⟩

def modify (l : Lens σ τ) (f : τ → τ) (s : σ) : σ := l.set (f (l.get s)) s

/-- A change of the part as a change of the whole. -/
def lift (l : Lens σ τ) (f : τ → α × τ) (s : σ) : α × σ :=
  let (a, t) := f (l.get s)
  (a, l.set t s)

end Lens

/-- A task on a part of the state as a task on the whole. -/
def Task.zoom {σ τ : Type} (l : Lens σ τ) {α : Type} : Task τ α → Task σ α
  | .done a => .done a
  | .act f k => .act (fun t s => l.lift (f t) s) fun b => (k b).zoom l
  | .wait d r k => .wait d (fun t s => (r t (l.get s)).map fun (b, p) => (b, l.set p s))
      fun b => (k b).zoom l
  | .yield k => .yield (k.zoom l)
  | .spawn c k => .spawn (c.zoom l) fun i => (k i).zoom l
  | .cancel i k => .cancel i (k.zoom l)
  | .hold r body k => .hold (l.modify r) (body.zoom l) fun b => (k b).zoom l
  | .loop s body k => .loop s (fun b => (body b).zoom l) fun c => (k c).zoom l

end LanguageServer
