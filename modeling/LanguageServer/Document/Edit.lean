import LanguageServer.Document.Lines

/-! Edits of a text. -/
namespace LanguageServer

/-- A text for a range, or for the whole document when there is no range. -/
structure Edit where
  range : Option Range
  text : String
  deriving DecidableEq, Inhabited

namespace Edit

/-- Puts a text in place of the characters from `low` up to `high`. -/
def splice (cs : List Char) (low high : Nat) (new : List Char) : List Char :=
  cs.take low ++ new ++ cs.drop high

/-- The text after an edit. The two ends of a range may stand in either order. -/
def apply (cs : List Char) (e : Edit) : List Char :=
  match e.range with
  | none => e.text.toList
  | some r =>
    let a := Document.index cs r.start
    let b := Document.index cs r.stop
    splice cs (min a b) (max a b) e.text.toList

def applyAll (cs : List Char) (es : List Edit) : List Char := es.foldl apply cs

end Edit
end LanguageServer
