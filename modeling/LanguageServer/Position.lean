import LanguageServer.Json.Record

/-! Positions and ranges in a document: lines and columns of 32 bits, counted from zero. -/
namespace LanguageServer

/-- A place between two characters of a line. -/
structure Position where
  line : UInt32
  character : UInt32
  deriving DecidableEq, Inhabited, Hashable

namespace Position

/-- By line, then by column. -/
def le (p q : Position) : Bool := p.line < q.line || (p.line = q.line && p.character ≤ q.character)

instance : LE Position := ⟨fun p q => p.le q = true⟩
instance (p q : Position) : Decidable (p ≤ q) := inferInstanceAs (Decidable (_ = true))

def toJson (p : Position) : Json :=
  .object [("character", .nat p.character.toNat), ("line", .nat p.line.toNat)]

def coordinate? (j : Json) : Option UInt32 := (j.natOfBits? 32).map Nat.toUInt32

def ofJson? (j : Json) : Option Position := do
  match ← j.fields? ["line", "character"] with
  | [line, character] => some ⟨← Json.required coordinate? line, ← Json.required coordinate? character⟩
  | _ => none

end Position

/-- What lies between two positions; nothing forces the end behind the start. -/
structure Range where
  start : Position
  stop : Position
  deriving DecidableEq, Inhabited, Hashable

namespace Range

/-- The range on one line of a length in code units. -/
def ofLength (start : Position) (length : UInt32) : Range :=
  ⟨start, ⟨start.line, start.character + length⟩⟩

/-- Both ends belong to a range. -/
def contains (r : Range) (p : Position) : Bool := r.start ≤ p && p ≤ r.stop

def containsRange (r other : Range) : Bool := r.contains other.start && r.contains other.stop

def toJson (r : Range) : Json := .object [("end", r.stop.toJson), ("start", r.start.toJson)]

def ofJson? (j : Json) : Option Range := do
  match ← j.fields? ["start", "end"] with
  | [start, stop] => some ⟨← Json.required Position.ofJson? start, ← Json.required Position.ofJson? stop⟩
  | _ => none

/-- The short form of a range: line and character of its start, then of its end. -/
def toQuad (r : Range) : Json :=
  .ofList (fun (n : UInt32) => .nat n.toNat)
    [r.start.line, r.start.character, r.stop.line, r.stop.character]

def ofQuad? (j : Json) : Option Range := do
  match ← Json.listOf Position.coordinate? j with
  | [a, b, c, d] => some ⟨⟨a, b⟩, ⟨c, d⟩⟩
  | _ => none

end Range
end LanguageServer
