import LanguageServer.Json.Basic
import LanguageServer.Path
import LanguageServer.Timed.Cache

/-! Listings of files by the pattern that found them and the directory it was used in. -/
namespace LanguageServer.Timed

/-- How many entries a cache holds, and their keys as text, sorted. -/
structure Statistics where
  size : Nat
  keys : List String
  deriving DecidableEq

def Statistics.ofKeys (keys : List String) : Statistics :=
  ⟨keys.length, keys.mergeSort fun a b => !(b < a)⟩

def Statistics.toJson (s : Statistics) : Json :=
  .object [("keys", .ofList .string s.keys), ("size", .nat s.size)]

/-- A pattern and the directory it is used in, which its components identify. -/
structure ListingKey where
  pattern : String
  directory : Path

instance : BEq ListingKey := ⟨fun a b => a.pattern == b.pattern && a.directory.same b.directory⟩

abbrev Listings (ν : Type) := Cache ListingKey ν

namespace Listings

variable {ν : Type}

/-- Forgets all patterns of a directory. -/
def invalidate (c : Listings ν) (directory : Path) : Listings ν :=
  c.filter fun k _ => !k.directory.same directory

def statistics (c : Listings ν) : Statistics :=
  .ofKeys (c.keys.map fun k => k.pattern ++ ":" ++ k.directory.text)

end Listings
end LanguageServer.Timed
