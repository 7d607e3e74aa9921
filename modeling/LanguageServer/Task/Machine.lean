import LanguageServer.Task.Basic

/-! Machines of tasks: what one task does from one wait to the next, any interleaving of such
moves, and the fair run in which time passes only when every task waits. -/
namespace LanguageServer

/-- A shared state, the time, and the tasks that have not ended, each where it waits. -/
structure Machine (σ : Type) where
  state : σ
  now : Instant
  tasks : List (TaskId × Task σ Unit)
  next : TaskId

namespace Machine

variable {σ α : Type}

/-- What a move leaves behind besides the task that made it. -/
structure Effects (σ : Type) where
  state : σ
  next : TaskId
  spawned : List (TaskId × Task σ Unit)
  cancelled : List TaskId

/-- A task up to where it next waits. -/
def advance (now : Instant) {α : Type} : Task σ α → Effects σ → Effects σ × Task σ α
  | .act f k, e =>
    let (b, state) := f now e.state
    advance now (k b) { e with state }
  | .spawn child k, e =>
    advance now (k e.next)
      { e with next := e.next + 1, spawned := e.spawned ++ [(e.next, child)] }
  | .cancel id k, e =>
    advance now k { e with
      spawned := e.spawned.filter (·.1 ≠ id)
      cancelled := id :: e.cancelled }
  | .hold release body k, e =>
    match advance now body e with
    | (e, .done b) => advance now (k b) { e with state := release e.state }
    | (e, waiting) => (e, .hold release waiting k)
  | waiting, e => (e, waiting)

/-- A waiting task whose time has come, up to its next wait. -/
def resume (now : Instant) {α : Type} (task : Task σ α) (e : Effects σ) : Option (Effects σ × Task σ α) :=
  match task with
  | .wait _ ready k => (ready now e.state).map fun (b, state) => advance now (k b) { e with state }
  | .loop s body k => some (advance now ((body s).bind fun
    | .inl s => .loop s body k
    | .inr c => k c) e)
  | .yield k => some (advance now k e)
  | .hold release body k => (resume now body e).map fun
    | (e, .done b) => advance now (k b) { e with state := release e.state }
    | (e, waiting) => (e, .hold release waiting k)
  | .done _ => none
  | task => some (advance now task e)

def isDone : Task σ α → Bool
  | .done _ => true
  | _ => false

section Hold

variable {β : Type} {now : Instant} {e : Effects σ} {body : Task σ α} {k : α → Task σ β}

/-- Where a task under a hold is after a move of its body: past the hold if the body has ended. -/
def past (now : Instant) (release : σ → σ) (k : α → Task σ β) :
    Effects σ × Task σ α → Effects σ × Task σ β
  | (e, .done a) => advance now (k a) { e with state := release e.state }
  | (e, waiting) => (e, .hold release waiting k)

theorem past_waiting {release : σ → σ} {t : Task σ α} (h : isDone t = false) :
    past now release k (e, t) = (e, .hold release t k) := by
  cases t <;> first | rfl | cases h

theorem advance_hold (release : σ → σ) :
    advance now (.hold release body k) e = past now release k (advance now body e) := by
  rw [advance]
  rfl

theorem resume_hold (release : σ → σ) :
    resume now (.hold release body k) e = (resume now body e).map (past now release k) := by
  rw [resume]
  rfl

end Hold

/-- The state after a waiting task is dropped: what it holds is released, inner holds first. -/
def release {α : Type} : Task σ α → σ → σ
  | .hold unlock body _, s => unlock (release body s)
  | _, s => s

/-- Puts back a task after a move, together with what it left behind. -/
def settle (m : Machine σ) (id : TaskId) (r : Effects σ × Task σ Unit) : Machine σ :=
  let (e, task) := r
  let (dropped, others) := (m.tasks.filter (·.1 ≠ id)).partition fun t => e.cancelled.contains t.1
  let self := if isDone task ∨ e.cancelled.contains id then [] else [(id, task)]
  { m with
    state := dropped.foldl (fun s t => release t.2 s) e.state
    next := e.next
    tasks := others ++ self ++ e.spawned }

def effects (m : Machine σ) : Effects σ := ⟨m.state, m.next, [], []⟩

/-- One move of one task, if it can make one. -/
def step? (m : Machine σ) (id : TaskId) : Option (Machine σ) := do
  let task ← m.tasks.lookup id
  let r ← resume m.now task m.effects
  return m.settle id r

/-- Any machine that some interleaving of moves reaches, time passing as it likes. -/
inductive Reaches : Machine σ → Machine σ → Prop
  | refl (m : Machine σ) : Reaches m m
  | move {m n o : Machine σ} (id : TaskId) : Reaches m n → n.step? id = some o → Reaches m o
  | tick {m n : Machine σ} (t : Instant) : Reaches m n → n.now ≤ t → Reaches m { n with now := t }

def spawn (m : Machine σ) (task : Task σ Unit) : Machine σ :=
  { m with tasks := m.tasks ++ [(m.next, task)], next := m.next + 1 }

/-- Whether a waiting task can go on. -/
def canMove (m : Machine σ) {α : Type} : Task σ α → Bool
  | .wait _ ready _ => (ready m.now m.state).isSome
  | .hold _ body _ => canMove m body
  | .done _ => false
  | _ => true

def isYield {α : Type} : Task σ α → Bool
  | .yield _ => true
  | .hold _ body _ => isYield body
  | _ => false

/-- Whether a task lets the others go first. -/
def givesWay (m : Machine σ) (id : TaskId) : Bool := (m.tasks.lookup id).any isYield

/-- Moves one task as long as it can go on and does not give way. -/
def exhaust : Nat → Machine σ → TaskId → Machine σ
  | 0, m, _ => m
  | fuel + 1, m, id =>
    match m.step? id with
    | some n => if n.givesWay id then n else exhaust fuel n id
    | none => m

/-- The deadline a task waits for. -/
def deadline? {α : Type} : Task σ α → Option Instant
  | .wait d _ _ => d
  | .hold _ body _ => deadline? body
  | _ => none

/-- The next moment at which a deadline passes. -/
def nextDeadline? (m : Machine σ) : Option Instant :=
  (m.tasks.filterMap fun t => (deadline? t.2).filter (m.now < ·)).foldl (fun best d =>
    match best with
    | some b => some (if d < b then d else b)
    | none => some d) none

/-- The queue with every task at its end that can go on, does not give way and is not in it yet. -/
def enqueue (m : Machine σ) (queue : List TaskId) : List TaskId :=
  queue ++ (m.tasks.filter fun t =>
    !queue.contains t.1 && m.canMove t.2 && !isYield t.2).map (·.1)

/-- The task that goes on next: the first in the queue; if there is none, the first that gave way. -/
def choose (m : Machine σ) (queue : List TaskId) : Option (TaskId × List TaskId) :=
  match enqueue m queue with
  | id :: rest => some (id, rest)
  | [] => (m.tasks.find? fun t => isYield t.2).map fun t => (t.1, [])

/-- The fair run, until `halted` holds or nothing can happen any more: tasks go on in the order in
which they became able to, each as far as it can; when none is able to, time moves to the next
deadline. -/
def run (halted : Machine σ → Bool) : Nat → Machine σ → List TaskId → Machine σ
  | 0, m, _ => m
  | fuel + 1, m, queue =>
    if halted m then m
    else match choose m queue with
      | some (id, rest) => run halted fuel (exhaust fuel m id) rest
      | none =>
        match m.nextDeadline? with
        | some t => run halted fuel { m with now := t } []
        | none => m

/-- The fair run of a task together with the tasks that are there, until it ends. -/
def runTask (fuel : Nat) (m : Machine σ) (task : Task σ Unit) : Machine σ :=
  let id := m.next
  run (fun m => (m.tasks.lookup id).isNone) fuel (m.spawn task) []

def start (state : σ) : Machine σ := ⟨state, ⟨0⟩, [], 0⟩

end Machine
end LanguageServer
