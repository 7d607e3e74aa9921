import LanguageServer.Hierarchy.Knowledge
import LanguageServer.Import.ModulePath

/-! Classes, modules and programs that inherit from each other. -/
namespace LanguageServer

/-- What stands after the last dot of a target. -/
def className (target : String) : String :=
  String.ofList ((target.toList.reverse.takeWhile (· ≠ '.')).reverse)

/-- The first class or module of a name. -/
def Analysis.class? (a : Analysis) (name : String) : Option Symbol :=
  a.walk.find? fun s => s.isType && s.name = name

namespace Knowledge

/-- What an item inherits by its own declarations. -/
def inheritedBy (a : Analysis) (item : HierarchyItem) : List String :=
  let members := match item.kind with
    | .program => a.symbols
    | _ => ((item.symbolIn? a).map Symbol.children).getD []
  members.filterMap Symbol.inherited?

def classItem? (name : String) (d : Url × Analysis) : Option HierarchyItem :=
  (d.2.class? name).bind (HierarchyItem.ofSymbol? d.1)

/-- The class or program that a target means for an item: another class of its file, a file that is
found as for an import, a class of another document, or a document that the target names by its
path. -/
def parent? (k : Knowledge) (target : String) (item : HierarchyItem) (a : Analysis) :
    Option HierarchyItem :=
  let name := className target
  let sibling := ((a.class? name).filter (·.selection ≠ item.selection)).bind
    (HierarchyItem.ofSymbol? item.url)
  let file := ((k.inheritedFile target item.url).bind Url.ofFilePath?).map HierarchyItem.program
  let elsewhere := (k.others item.url).findSome? (classItem? name)
  let document := (ModulePath.find? target k.urls).map HierarchyItem.program
  let unopened := k.workspace.bind fun files =>
    (ModulePath.find? target (files.filter fun u => !k.urls.contains u)).map HierarchyItem.program
  sibling.or (file.or (elsewhere.or (document.or unopened)))

/-- Adds an item that is not there yet. -/
def addItem (items : List HierarchyItem) (i : HierarchyItem) : List HierarchyItem :=
  if items.contains i then items else items ++ [i]

/-- Collects items until there are as many as allowed. -/
def collectItems (limit : Nat) : List HierarchyItem → List HierarchyItem → List HierarchyItem
  | [], items => items
  | i :: rest, items =>
    let items := addItem items i
    if limit ≤ items.length then items else collectItems limit rest items

/-- The classes and programs that an item inherits from. -/
def supertypes (k : Knowledge) (limit : Nat) (item : HierarchyItem) : List HierarchyItem :=
  match k.latest? item.url with
  | some a => collectItems limit ((inheritedBy a item).filterMap fun t => k.parent? t item a) []
  | none => []

def names (target : String) (item : HierarchyItem) : Bool :=
  match item.kind with
  | .program => ModulePath.isMatch target item.url
  | _ => target = item.name || className target = item.name

/-- What stands for the owner of an inherit symbol: its class, or the file. -/
def ownerItem? (u : Url) : Option Symbol → Option HierarchyItem
  | some s => HierarchyItem.ofSymbol? u s
  | none => some (HierarchyItem.program u)

/-- The classes and programs of a document that inherit from an item other than themselves. -/
def heirsIn (item : HierarchyItem) (d : Url × Analysis) : List HierarchyItem :=
  let edges := Symbol.inheritEdges (d.2.symbols.map (none, ·))
  (edges.filterMap fun (owner, target) => if names target item then ownerItem? d.1 owner else none).filter
    fun i => !(i.url = item.url && i.selection = item.selection && i.name = item.name)

/-- The classes and programs that inherit from an item. -/
def subtypes (k : Knowledge) (limit : Nat) (item : HierarchyItem) : List HierarchyItem :=
  collectItems limit (k.analyses.flatMap (heirsIn item)) []

end Knowledge
end LanguageServer
