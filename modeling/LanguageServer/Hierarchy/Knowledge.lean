import LanguageServer.Hierarchy.Item
import LanguageServer.Import.Set

/-! What hierarchies are made from. Nothing here starts an analysis: an answer about other files
draws on the analyses that are there. -/
namespace LanguageServer

/-- How far trees go down and how many items an answer may have. -/
structure HierarchyLimits where
  depth : Nat
  items : Nat
  deriving DecidableEq, Inhabited

structure Knowledge where
  /-- The analyses that are there, by URL. -/
  analyses : List (Url × Analysis)
  /-- The imports known of a document. -/
  imports : Url → Option ImportSet
  /-- The file that an inherit target means in a document. -/
  inheritedFile : String → Url → Option Path
  /-- The files of the workspace, if they have been listed. -/
  workspace : Option (List Url)

namespace Knowledge

def latest? (k : Knowledge) (u : Url) : Option Analysis := k.analyses.lookup u

def urls (k : Knowledge) : List Url := k.analyses.map (·.1)

/-- The analyses of other documents. -/
def others (k : Knowledge) (u : Url) : List (Url × Analysis) := k.analyses.filter (·.1 ≠ u)

/-- The innermost function, method, class or module at a position. -/
def prepare (k : Knowledge) (u : Url) (p : Position) : Option HierarchyItem := do
  let a ← k.latest? u
  let s ← a.innermost? p fun s => (s.isCallable || s.isType) && !s.isDeclarationOnly
  HierarchyItem.ofSymbol? u s

end Knowledge

/-- The symbol that an item was made from, if its document still shows it. -/
def HierarchyItem.symbolIn? (i : HierarchyItem) (a : Analysis) : Option Symbol :=
  a.walk.find? fun s => s.name = i.name && s.selection = i.selection

/-- The positions where symbols are declared rather than used. -/
def Analysis.declared (a : Analysis) : List Position := a.walk.map (·.selection.start)

end LanguageServer
