import LanguageServer.Analyzer.Reply

/-! The search for a cycle of imports, depth first. The walk asks for the imports of one file after
the other and is told them. -/
namespace LanguageServer

/-- A file on the way from the root, and the imports of it that were not followed yet. -/
structure CycleWalk.Frame where
  file : Url
  remaining : List Url
  deriving DecidableEq, Inhabited

structure CycleWalk where
  /-- The files on the way from the root, the root last. -/
  stack : List CycleWalk.Frame
  /-- The files all of whose imports were followed. -/
  finished : List Url
  deriving DecidableEq, Inhabited

namespace CycleWalk

/-- What a walk comes to next: a verdict, or a file whose imports it has to know. -/
inductive Event where
  | verdict (v : CycleVerdict)
  | visit (file : Url) (walk : CycleWalk)

def start (root : Url) (imports : List Url) : CycleWalk := ⟨[⟨root, imports⟩], []⟩

/-- The frames from the top down to the one of a file. -/
def downTo (file : Url) : List Frame → List Frame
  | [] => []
  | f :: rest => if f.file = file then [f] else f :: downTo file rest

/-- The cycle that an import of the topmost file closes. -/
def cycleTo (file : Url) (stack : List Frame) : List Url :=
  ((downTo file stack).map (·.file)).reverse ++ [file]

/-- The steps that a stack allows at most before a file has to be read. -/
def weight (stack : List Frame) : Nat :=
  stack.foldr (fun f n => f.remaining.length + 1 + n) 0

/-- Follows the imports known so far. -/
def next (w : CycleWalk) : Event :=
  match w with
  | ⟨[], _⟩ => .verdict .acyclic
  | ⟨⟨file, []⟩ :: rest, finished⟩ => next ⟨rest, file :: finished⟩
  | ⟨⟨file, dep :: remaining⟩ :: rest, finished⟩ =>
    let stack := ⟨file, remaining⟩ :: rest
    if stack.any (·.file = dep) then .verdict (.cycle (cycleTo dep stack))
    else if finished.contains dep then next ⟨stack, finished⟩
    else .visit dep ⟨stack, finished⟩
termination_by weight w.stack
decreasing_by all_goals simp [weight]

/-- Goes on with the imports of the file that was asked for; a file that cannot be read has none. -/
def enter (w : CycleWalk) (file : Url) : Option (List Url) → CycleWalk
  | some imports => { w with stack := ⟨file, imports⟩ :: w.stack }
  | none => { w with finished := file :: w.finished }

end CycleWalk
end LanguageServer
