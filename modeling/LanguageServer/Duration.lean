/-! Spans of time and points in time, both counted in nanoseconds. -/
namespace LanguageServer

structure Duration where
  nanos : Nat
  deriving DecidableEq, Inhabited

/-- A point in time, as the span since an origin that is never shown. -/
structure Instant where
  nanos : Nat
  deriving DecidableEq, Inhabited

namespace Duration

def ofMillis (n : Nat) : Duration := ⟨n * 1000000⟩
def ofSeconds (n : Nat) : Duration := ⟨n * 1000000000⟩

def millis (d : Duration) : Nat := d.nanos / 1000000

instance : LT Duration := ⟨fun a b => a.nanos < b.nanos⟩
instance : LE Duration := ⟨fun a b => a.nanos ≤ b.nanos⟩
instance (a b : Duration) : Decidable (a < b) := inferInstanceAs (Decidable (a.nanos < b.nanos))
instance (a b : Duration) : Decidable (a ≤ b) := inferInstanceAs (Decidable (a.nanos ≤ b.nanos))

/-- A count of `unit` nanoseconds with the fraction that is left over, its last zeros cut. -/
def inUnit (nanos unit : Nat) (name : String) : String :=
  let places := (toString unit).length - 1
  let rest := (toString (unit + nanos % unit)).toList.drop 1
  let fraction := (rest.take places).reverse.dropWhile (· = '0') |>.reverse
  let point := if fraction.isEmpty then "" else "." ++ String.ofList fraction
  toString (nanos / unit) ++ point ++ name

/-- A span in the largest unit of which it holds one at least. -/
def text (d : Duration) : String :=
  if 1000000000 ≤ d.nanos then inUnit d.nanos 1000000000 "s"
  else if 1000000 ≤ d.nanos then inUnit d.nanos 1000000 "ms"
  else if 1000 ≤ d.nanos then inUnit d.nanos 1000 "µs"
  else toString d.nanos ++ "ns"

end Duration

namespace Instant

def after (t : Instant) (d : Duration) : Instant := ⟨t.nanos + d.nanos⟩

/-- The span from an earlier point in time; none at all from a later one. -/
def since (t earlier : Instant) : Duration := ⟨t.nanos - earlier.nanos⟩

instance : LT Instant := ⟨fun a b => a.nanos < b.nanos⟩
instance : LE Instant := ⟨fun a b => a.nanos ≤ b.nanos⟩
instance (a b : Instant) : Decidable (a < b) := inferInstanceAs (Decidable (a.nanos < b.nanos))
instance (a b : Instant) : Decidable (a ≤ b) := inferInstanceAs (Decidable (a.nanos ≤ b.nanos))

end Instant
end LanguageServer
