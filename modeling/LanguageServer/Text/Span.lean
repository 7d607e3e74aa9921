import LanguageServer.Text.Hex
import LanguageServer.Text.Split

/-! Tables of code points: spans in order, with the numbers that go with them. A table is written
as text: `41-5A` is a span, `100-12E/2` every other code point of one, and what follows a colon
are the numbers. -/
namespace LanguageServer.Text

/-- Code points from `first` to `last` in steps of `stride`, with the numbers that go with them. -/
structure Span where
  first : Nat
  last : Nat
  stride : Nat
  values : List Nat
  deriving Inhabited

/-- Spans by their first code points; none begins before the one before it ends. -/
abbrev SpanTable := Array Span

/-- A hexadecimal number; what is no digit counts as zero. -/
def hexNumber (ds : List Char) : Nat := ds.foldl (fun n d => 16 * n + (Hex.digit? d).getD 0) 0

def Span.ofText (cs : List Char) : Span :=
  let (place, values) := cut ':' cs
  let (ends, stride) := cut '/' place
  let (first, last) := cut '-' ends
  { first := hexNumber first
    last := if last.isEmpty then hexNumber first else hexNumber last
    stride := if stride.isEmpty then 1 else hexNumber stride
    values := if values.isEmpty then [] else (split ',' values).map hexNumber }

def Span.holds (s : Span) (n : Nat) : Bool :=
  s.first ≤ n && n ≤ s.last && (n - s.first) % s.stride = 0

namespace SpanTable

/-- The table that lines of text write, spans between spaces. -/
def ofLines (lines : List String) : SpanTable :=
  (lines.flatMap fun line => (split ' ' line.toList).map Span.ofText).toArray

/-- How many of the spans between two places, and before, begin at or before `n`. -/
def reach (t : SpanTable) (n lo hi : Nat) (h : hi ≤ t.size) : Nat :=
  if hlt : lo < hi then
    let mid := (lo + hi) / 2
    if t[mid].first ≤ n then reach t n (mid + 1) hi h
    else reach t n lo mid (by omega)
  else lo
termination_by hi - lo
decreasing_by all_goals omega

def find? (t : SpanTable) (n : Nat) : Option Span :=
  t[reach t n 0 t.size (Nat.le_refl _) - 1]?.filter (·.holds n)

def contains (t : SpanTable) (n : Nat) : Bool := (t.find? n).isSome

/-- The number that goes with a code point. -/
def value? (t : SpanTable) (n : Nat) : Option Nat := (t.find? n).bind (·.values.head?)

theorem holds_of_find? {t : SpanTable} {n : Nat} {s : Span} (h : t.find? n = some s) : s.holds n :=
  Option.filter_eq_some_iff.1 h |>.2

end SpanTable
end LanguageServer.Text
