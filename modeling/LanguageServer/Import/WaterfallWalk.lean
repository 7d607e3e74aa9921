import LanguageServer.Analyzer.Reply
import LanguageServer.Import.Set

/-! The collection of the symbols that a document sees through its imports, breadth first. The walk
asks for the imports of files and for their symbols and is told them. Of several symbols of one name
the first one found counts. -/
namespace LanguageServer

/-- A file whose imports may be followed: its text and its distance from the root. -/
structure WaterfallWalk.Source where
  file : Url
  text : String
  depth : Nat
  deriving DecidableEq, Inhabited

structure WaterfallWalk where
  limit : Nat
  queue : List WaterfallWalk.Source
  /-- The imports still to be followed from the file at hand, and its distance. -/
  edges : List ImportEdge
  depth : Nat
  visited : List Url
  names : List String
  found : List WaterfallSymbol
  deriving Inhabited

namespace WaterfallWalk

/-- What a walk comes to next: its end, a file whose imports it has to know, or a file whose text
and symbols it has to know. -/
inductive Event where
  | finished (found : List WaterfallSymbol)
  | expand (source : Source) (walk : WaterfallWalk)
  | visit (file : Url) (via : ImportKind) (walk : WaterfallWalk)

def start (root : Url) (text : String) (limit : Nat) : WaterfallWalk :=
  ⟨limit, [⟨root, text, 0⟩], [], 0, [root], [], []⟩

/-- Follows the imports known so far. -/
def next (w : WaterfallWalk) : Event :=
  match w with
  | ⟨limit, queue, e :: edges, depth, visited, names, found⟩ =>
    match e.url? with
    | none => next ⟨limit, queue, edges, depth, visited, names, found⟩
    | some dep =>
      if visited.contains dep then next ⟨limit, queue, edges, depth, visited, names, found⟩
      else .visit dep e.kind ⟨limit, queue, edges, depth, dep :: visited, names, found⟩
  | ⟨limit, s :: queue, [], depth, visited, names, found⟩ =>
    if limit ≤ s.depth then next ⟨limit, queue, [], depth, visited, names, found⟩
    else .expand s ⟨limit, queue, [], depth, visited, names, found⟩
  | ⟨_, [], [], _, _, _, found⟩ => .finished found
termination_by w.queue.length + w.edges.length
decreasing_by all_goals simp_all

/-- Goes on with the imports of a file. -/
def follow (w : WaterfallWalk) (s : Source) (edges : List ImportEdge) : WaterfallWalk :=
  { w with edges, depth := s.depth }

/-- Adds the symbols of a file whose names are new. -/
def addSymbols (file : Url) (depth : Nat) (via : ImportKind) :
    List Symbol → WaterfallWalk → WaterfallWalk
  | [], w => w
  | s :: rest, w =>
    if s.inherited?.isSome || w.names.contains s.name then addSymbols file depth via rest w
    else addSymbols file depth via rest { w with
      names := s.name :: w.names
      found := w.found ++ [⟨s, file, depth, via⟩] }

/-- Goes on with the text and the symbols of a file one import further away. -/
def enter (w : WaterfallWalk) (file : Url) (via : ImportKind) (text : String)
    (symbols : List Symbol) : WaterfallWalk :=
  let w := addSymbols file (w.depth + 1) via symbols w
  { w with queue := w.queue ++ [⟨file, text, w.depth + 1⟩] }

end WaterfallWalk
end LanguageServer
