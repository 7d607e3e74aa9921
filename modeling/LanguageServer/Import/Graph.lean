import LanguageServer.Analyzer.Reply
import LanguageServer.Flight.Table
import LanguageServer.Import.Set
import LanguageServer.Timed.Cache

/-! What is remembered of the import graph: the imports of documents, the verdicts on cycles and the
waterfalls of symbols, each for a short time and only for the text it came from. Every document has
an epoch that an invalidation moves on, and what a walk has read is kept only if no epoch that it
saw has moved. -/
namespace LanguageServer

/-- A result of a walk, the hash of the text that it began with, and the files that it read. -/
structure Derived (α : Type) where
  value : α
  hash : UInt64
  files : List Url

/-- The files that a walk has read, each with its epoch before the reading. -/
structure ReadSet where
  generation : Nat
  files : List (Url × Nat)
  deriving DecidableEq, Inhabited

structure ImportGraph where
  imports : Timed.Cache Url ImportSet
  importFlights : FlightTable (Url × UInt64) ImportSet
  waterfalls : Timed.Cache (Url × Nat) (Derived Waterfall)
  waterfallFlights : FlightTable (Url × Nat × UInt64) Waterfall
  cycles : Timed.Cache Url (Derived CycleVerdict)
  cycleFlights : FlightTable (Url × UInt64) CycleVerdict
  epochs : Table Url Nat
  generation : Nat

namespace ImportGraph

/-- An empty graph whose three caches keep their entries for the given spans. -/
def empty (imports waterfalls cycles : Duration) : ImportGraph :=
  ⟨.empty imports, .empty, .empty waterfalls, .empty, .empty cycles, .empty, .empty, 0⟩

def epoch (g : ImportGraph) (u : Url) : Nat := (g.epochs.find? u).getD 0

def startReads (g : ImportGraph) : ReadSet := ⟨g.generation, []⟩

/-- Notes that a file is about to be read. -/
def record (g : ImportGraph) (u : Url) (r : ReadSet) : ReadSet :=
  if r.files.any (·.1 = u) then r else { r with files := r.files ++ [(u, g.epoch u)] }

/-- Whether nothing that was read has been invalidated since. -/
def isUnchanged (g : ImportGraph) (r : ReadSet) : Bool :=
  g.generation = r.generation && r.files.all fun f => g.epoch f.1 = f.2

/-- Puts a value into a cache if nothing that it came from has been invalidated. -/
def storeIfUnchanged {κ ν : Type} [BEq κ] (g : ImportGraph) (cache : Timed.Cache κ ν) (now : Instant)
    (key : κ) (value : ν) (r : ReadSet) : Timed.Cache κ ν :=
  if g.isUnchanged r then cache.insert now key value else cache

/-- Drops all that was derived from a document. -/
def invalidate (g : ImportGraph) (u : Url) : ImportGraph :=
  { g with
    epochs := g.epochs.insert u (g.epoch u + 1)
    imports := g.imports.erase u
    waterfalls := g.waterfalls.filter fun k d => k.1 ≠ u && !d.files.contains u
    cycles := g.cycles.filter fun k d => k ≠ u && !d.files.contains u }

def clear (g : ImportGraph) : ImportGraph :=
  { g with
    generation := g.generation + 1
    imports := g.imports.clear
    waterfalls := g.waterfalls.clear
    cycles := g.cycles.clear }

/-- The imports held for a document, if they come from a text of this hash. -/
def importsOf (now : Instant) (u : Url) (hash : UInt64) (g : ImportGraph) :
    Option ImportSet × ImportGraph :=
  let (s, imports) := g.imports.get now u
  (s.filter (·.hash = hash), { g with imports })

/-- The verdict held for a document, if it comes from a text of this hash. -/
def cycleOf (now : Instant) (u : Url) (hash : UInt64) (g : ImportGraph) :
    Option CycleVerdict × ImportGraph :=
  let (d, cycles) := g.cycles.get now u
  ((d.filter (·.hash = hash)).map (·.value), { g with cycles })

/-- The waterfall held for a document and a depth, if it comes from a text of this hash. -/
def waterfallOf (now : Instant) (u : Url) (depth : Nat) (hash : UInt64) (g : ImportGraph) :
    Option Waterfall × ImportGraph :=
  let (d, waterfalls) := g.waterfalls.get now (u, depth)
  ((d.filter (·.hash = hash)).map (·.value), { g with waterfalls })

def ReadSet.urls (r : ReadSet) : List Url := r.files.map (·.1)

def storeImports (now : Instant) (u : Url) (s : ImportSet) (r : ReadSet) (g : ImportGraph) :
    ImportGraph :=
  { g with imports := g.storeIfUnchanged g.imports now u s r }

def storeCycle (now : Instant) (u : Url) (hash : UInt64) (v : CycleVerdict) (r : ReadSet)
    (g : ImportGraph) : ImportGraph :=
  { g with cycles := g.storeIfUnchanged g.cycles now u ⟨v, hash, ReadSet.urls r⟩ r }

def storeWaterfall (now : Instant) (u : Url) (depth : Nat) (hash : UInt64) (w : Waterfall)
    (r : ReadSet) (g : ImportGraph) : ImportGraph :=
  { g with
    waterfalls := g.storeIfUnchanged g.waterfalls now (u, depth) ⟨w, hash, ReadSet.urls r⟩ r }

end ImportGraph
end LanguageServer
