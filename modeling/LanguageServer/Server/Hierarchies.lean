import LanguageServer.Hierarchy.Inheritance
import LanguageServer.Hierarchy.Tree
import LanguageServer.Server.Documents

/-! Hierarchies of calls and types over what the server knows. -/
namespace LanguageServer.Server

/-- What the server knows at a time, with the given files of the workspace. -/
def knowledge (now : Instant) (workspace : Option (List Url)) (s : Server) : Knowledge where
  analyses := s.analyses.settled
  imports u := s.graph.imports.find? now u
  inheritedFile target u := s.resolveTarget .inheritProgram target u
  workspace := workspace

/-- The files of the workspace, once they have been listed. -/
def listed (s : Server) : Option (List Url) :=
  s.otherListing.getD (if s.workspace.isReady then some s.workspace.urls else none)

/-- Asks what the server knows. -/
def consult {α : Type} (workspace : Server → Option (List Url)) (ask : Knowledge → α) : Job α :=
  .act (fun now s => (ask (s.knowledge (s.time now) (workspace s)), s)) .done

/-- Asks a question for which the imports of documents are looked at; expired ones are dropped. -/
def consultImports {α : Type} (workspace : Server → Option (List Url))
    (ask : Knowledge → α × List Url) : Job α :=
  .act (fun now s =>
    let now := s.time now
    let (a, asked) := ask (s.knowledge now (workspace s))
    let imports := asked.foldl (fun c u => c.settle now u) s.graph.imports
    (a, { s with graph := { s.graph with imports } })) .done

/-- Learns the imports of a document if none are held; a failure leaves fewer to look at. -/
def learnImports (u : Url) : Job Unit := do
  match ← heldImports u with
  | some _ => return
  | none =>
    let _ ← imports u
    return

/-- The item at a position of a document, which is analysed first. -/
def prepare (u : Url) (p : Position) : Job (Except Failure (Option HierarchyItem)) := do
  match ← analyze u with
  | .error f => return .error f
  | .ok none => return .ok none
  | .ok (some _) =>
    learnImports u
    return .ok (← consult listed (·.prepare u p))

/-- The calls out of an item. -/
def outgoing (i : HierarchyItem) : Job (List Call) := do
  learnImports i.url
  let limit ← Task.read (·.limits.items)
  consultImports listed fun k =>
    let calls := k.outgoing limit i
    (calls.found, calls.asked)

/-- The calls of an item. -/
def incoming (i : HierarchyItem) : Job (List Call) := do
  let limit ← Task.read (·.limits.items)
  consultImports listed fun k =>
    let calls := k.incoming limit i
    (calls.found, calls.asked)

/-- What an item inherits from; the workspace is listed first if it has roots. -/
def supertypes (i : HierarchyItem) : Job (List HierarchyItem) := do
  if !(← Task.read (·.workspace.roots.isEmpty)) then
    let _ ← scan
  let limit ← Task.read (·.limits.items)
  consult listed (·.supertypes limit i)

/-- What inherits from an item. -/
def subtypes (i : HierarchyItem) : Job (List HierarchyItem) := do
  let limit ← Task.read (·.limits.items)
  consult listed (·.subtypes limit i)

end LanguageServer.Server
