import LanguageServer.Duration
import LanguageServer.Table

/-! A map whose entries expire a fixed span after they were written. Expired entries stay until
they are read or purged. -/
namespace LanguageServer.Timed

structure Stamped (ν : Type) where
  value : ν
  written : Instant

/-- Whether less than a span has passed since the writing. -/
def Stamped.isFresh {ν : Type} (e : Stamped ν) (now : Instant) (lifetime : Duration) : Bool :=
  now.since e.written < lifetime

/-- What has expired stays expired. -/
theorem Stamped.isFresh_later {ν : Type} {e : Stamped ν} {t t' : Instant} {lifetime : Duration}
    (h : e.isFresh t lifetime = false) (ht : t ≤ t') : e.isFresh t' lifetime = false := by
  have hage : ¬ t.nanos - e.written.nanos < lifetime.nanos := of_decide_eq_false h
  have hle : t.nanos ≤ t'.nanos := ht
  exact decide_eq_false (show ¬ t'.nanos - e.written.nanos < lifetime.nanos by omega)

structure Cache (κ ν : Type) where
  lifetime : Duration
  entries : Table κ (Stamped ν)

namespace Cache

variable {κ ν : Type}

def empty (lifetime : Duration) : Cache κ ν := ⟨lifetime, .empty⟩

/-- The number of entries held, expired ones included. -/
def size (c : Cache κ ν) : Nat := c.entries.size

def isEmpty (c : Cache κ ν) : Bool := c.entries.isEmpty

def keys (c : Cache κ ν) : List κ := c.entries.keys

def clear (c : Cache κ ν) : Cache κ ν := { c with entries := .empty }

/-- Keeps the entries whose key and value satisfy `p`, expired or not. -/
def filter (c : Cache κ ν) (p : κ → ν → Bool) : Cache κ ν :=
  { c with entries := c.entries.filter fun k e => p k e.value }

/-- Drops what has expired, and counts it. -/
def purge (c : Cache κ ν) (now : Instant) : Nat × Cache κ ν :=
  let kept := c.entries.filter fun _ e => e.isFresh now c.lifetime
  (c.entries.size - kept.size, { c with entries := kept })

variable [BEq κ]

/-- The fresh entry of a key. -/
def entry? (c : Cache κ ν) (now : Instant) (k : κ) : Option (Stamped ν) :=
  (c.entries.find? k).filter (·.isFresh now c.lifetime)

def find? (c : Cache κ ν) (now : Instant) (k : κ) : Option ν := (c.entry? now k).map (·.value)

/-- Drops the entry of a key if it has expired. -/
def settle (c : Cache κ ν) (now : Instant) (k : κ) : Cache κ ν :=
  match c.entries.find? k with
  | some e => if e.isFresh now c.lifetime then c else { c with entries := c.entries.erase k }
  | none => c

/-- Reads a key; an expired entry is dropped on the way. -/
def get (c : Cache κ ν) (now : Instant) (k : κ) : Option ν × Cache κ ν :=
  (c.find? now k, c.settle now k)

def insert (c : Cache κ ν) (now : Instant) (k : κ) (v : ν) : Cache κ ν :=
  { c with entries := c.entries.insert k ⟨v, now⟩ }

def erase (c : Cache κ ν) (k : κ) : Cache κ ν := { c with entries := c.entries.erase k }

/-- Takes out what is held under a key, expired or not. -/
def take (c : Cache κ ν) (k : κ) : Option ν × Cache κ ν :=
  ((c.entries.find? k).map (·.value), c.erase k)

theorem lifetime_settle (c : Cache κ ν) (now : Instant) (k : κ) :
    (c.settle now k).lifetime = c.lifetime := by
  unfold settle
  split
  · split <;> rfl
  · rfl

/-- An entry lives for the lifetime of the cache, beginning when it is written. -/
theorem find?_insert [EquivBEq κ] (c : Cache κ ν) (t now : Instant) (k j : κ) (v : ν) :
    (c.insert t k v).find? now j =
      if k == j then (if now.since t < c.lifetime then some v else none) else c.find? now j := by
  simp only [find?, entry?, insert, Table.find?_insert]
  by_cases h : k == j
  · by_cases hf : now.since t < c.lifetime <;> simp [h, Stamped.isFresh, Option.filter, hf]
  · simp [h]

theorem find?_erase [EquivBEq κ] (c : Cache κ ν) (now : Instant) (k j : κ) :
    (c.erase k).find? now j = if k == j then none else c.find? now j := by
  simp only [find?, entry?, erase, Table.find?_erase]
  by_cases h : k == j <;> simp [h]

end Cache
end LanguageServer.Timed
