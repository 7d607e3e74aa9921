import LanguageServer.Position
import LanguageServer.Text.Utf16

/-! The lines of a text and the characters that positions denote. -/
namespace LanguageServer.Document

/-- The characters that end a line by themselves: line feed, vertical tab, form feed, carriage
return, next line, and the line and paragraph separators. -/
def endsLine (c : Char) : Bool :=
  let n := c.toNat
  (10 ≤ n && n ≤ 13) || n = 0x85 || n = 0x2028 || n = 0x2029

/-- The lines of a text, each with what ends it; the last one has no end. -/
def lines : List Char → List (List Char)
  | [] => [[]]
  | '\r' :: '\n' :: rest => ['\r', '\n'] :: lines rest
  | c :: rest =>
    if endsLine c then [c] :: lines rest
    else match lines rest with
      | [] => [[c]]
      | l :: ls => (c :: l) :: ls

/-- Nothing of a text is lost between its lines. -/
theorem flatten_lines (cs : List Char) : (lines cs).flatten = cs := by
  fun_induction lines cs <;> simp_all

/-- The characters of a line that fit into so many code units, up to its carriage return or line
feed. A unit inside a surrogate pair stands for the start of its character. -/
def column (count : Nat) : List Char → Nat
  | [] => 0
  | c :: rest =>
    if c = '\n' ∨ c = '\r' then 0
    else if Text.units c ≤ count then column (count - Text.units c) rest + 1
    else 0

/-- A column lies inside its line. -/
theorem column_le_length (count : Nat) (line : List Char) : column count line ≤ line.length := by
  fun_induction column count line <;> simp_all

/-- The number of characters before a position; a position below the text is its end. -/
def index (cs : List Char) (p : Position) : Nat :=
  let ls := lines cs
  match ls[p.line.toNat]? with
  | some l => (ls.take p.line.toNat).foldr (fun l n => l.length + n) 0 + column p.character.toNat l
  | none => cs.length

end LanguageServer.Document
