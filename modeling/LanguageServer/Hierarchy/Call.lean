import LanguageServer.Hierarchy.Knowledge
import LanguageServer.Text.Utf16

/-! Calls between items. A name means the callable that its own file defines, then one that a file
imported there defines, then the first one that any other analysed document defines. -/
namespace LanguageServer

/-- The item at the other end of a call, and the places of the calls. -/
structure Call where
  item : HierarchyItem
  sites : List Range
  deriving DecidableEq, Inhabited

/-- The calls found, and the documents whose imports were looked at on the way. -/
structure Calls where
  found : List Call
  asked : List Url
  deriving Inhabited

/-- The item of a symbol that can be called. -/
def HierarchyItem.ofCallable? (u : Url) (s : Symbol) : Option HierarchyItem :=
  if s.isCallable then ofSymbol? u s else none

namespace Knowledge

/-- The callable that a document defines under a name. -/
def callableIn? (name : String) (d : Url × Analysis) : Option HierarchyItem :=
  (d.2.definition? name).bind (HierarchyItem.ofCallable? d.1)

/-- The files that a document is known to import. -/
def importsOf (k : Knowledge) (u : Url) : List Url := ((k.imports u).map ImportSet.urls).getD []

/-- Whether the imports of a document are looked at to find what a name means there. -/
def asks (a : Analysis) (name : String) : Bool := !a.defines name

/-- The callable that a name means in a document. -/
def callable? (k : Knowledge) (name : String) (u : Url) (a : Analysis) : Option HierarchyItem :=
  if a.defines name then callableIn? name (u, a)
  else
    ((k.importsOf u).findSome? fun dep => (k.latest? dep).bind fun d => callableIn? name (dep, d)).or
      ((k.others u).findSome? (callableIn? name))

/-- The range of a name that stands at a position. -/
def site (p : Position) (name : String) : Range := .ofLength p (Text.unitCount name.toList).toUInt32

/-- Adds a place to the call of an item; none when that takes one more call than allowed. -/
def addSite (limit : Nat) (item : HierarchyItem) (r : Range) (calls : List Call) :
    Option (List Call) :=
  if calls.any fun c => c.item.key = item.key then
    some (calls.map fun c => if c.item.key = item.key then { c with sites := c.sites ++ [r] } else c)
  else if limit ≤ calls.length then none
  else some (calls ++ [⟨item, [r]⟩])

/-- Places of names, by position and then by name. -/
def siteLe (a b : Position × String) : Bool :=
  if a.1 = b.1 then !(b.2 < a.2) else a.1.le b.1

/-- The uses of names inside an item, in order. -/
def usesIn (a : Analysis) (item : HierarchyItem) : List (Position × String) :=
  let declared := a.declared
  let all := a.index.flatMap fun (name, ps) => ps.map fun p => (p, name)
  (all.filter fun u => item.range.contains u.1 && !declared.contains u.1).mergeSort siteLe

/-- The calls at the given places, up to the first that is one call too many. -/
def collectOutgoing (k : Knowledge) (limit : Nat) (u : Url) (a : Analysis) :
    List (Position × String) → Calls → Calls
  | [], acc => acc
  | (p, name) :: rest, acc =>
    let acc := if asks a name then { acc with asked := u :: acc.asked } else acc
    match k.callable? name u a with
    | none => collectOutgoing k limit u a rest acc
    | some callee =>
      match addSite limit callee (site p name) acc.found with
      | some found => collectOutgoing k limit u a rest { acc with found }
      | none => acc

/-- The callables called from inside an item. -/
def outgoing (k : Knowledge) (limit : Nat) (item : HierarchyItem) : Calls :=
  match k.latest? item.url with
  | some a => k.collectOutgoing limit item.url a (usesIn a item) ⟨[], []⟩
  | none => ⟨[], []⟩

/-- The callables of a document around the given places; none when there is one too many. -/
def collectCallers (limit : Nat) (name : String) (u : Url) (a : Analysis) :
    List Position → List Call → List Call × Bool
  | [], calls => (calls, false)
  | p :: rest, calls =>
    match (a.innermost? p fun s => s.isCallable && !s.isDeclarationOnly).bind
        (HierarchyItem.ofSymbol? u) with
    | none => collectCallers limit name u a rest calls
    | some caller =>
      match addSite limit caller (site p name) calls with
      | some calls => collectCallers limit name u a rest calls
      | none => (calls, true)

/-- The callers of an item in the given documents, up to the first that is one too many. -/
def collectIncoming (k : Knowledge) (limit : Nat) (item : HierarchyItem) :
    List (Url × Analysis) → Calls → Calls
  | [], acc => acc
  | (u, a) :: rest, acc =>
    let places := a.occurrences item.name
    if places.isEmpty then collectIncoming k limit item rest acc
    else
      let acc := if asks a item.name then { acc with asked := u :: acc.asked } else acc
      if (k.callable? item.name u a).map HierarchyItem.key = some item.key then
        let declared := a.declared
        let (found, full) := collectCallers limit item.name u a
          (places.filter fun p => !declared.contains p) acc.found
        if full then { acc with found } else collectIncoming k limit item rest { acc with found }
      else collectIncoming k limit item rest acc

/-- The callables that call an item, in every document with an analysis. -/
def incoming (k : Knowledge) (limit : Nat) (item : HierarchyItem) : Calls :=
  k.collectIncoming limit item k.analyses ⟨[], []⟩

end Knowledge
end LanguageServer
