import LanguageServer.Text.Direction
import LanguageServer.Url.Domain.Label

/-! The name of a domain in ASCII. -/
namespace LanguageServer.Url.Domain
open LanguageServer.Text

/-- A name with the characters that stand for others in their place, composed. -/
def fold? (name : List Char) : Option (List Char) := do
  let folded := compose (← name.mapM foldChar?).flatten
  if folded.any isForbidden then none else some folded

/-- Whether every label keeps its direction, in a name that has more than one. -/
def directionsFit (labels : List (List Char)) : Bool :=
  let lines := labels.map (·.map direction)
  !lines.any (·.any Direction.isTurning) || lines.all keepsDirection

/-- A name in ASCII, its labels between dots; `none` when it is no name of a domain. -/
def toAscii? (name : List Char) : Option (List Char) := do
  let labels ← (split '.' (← fold? name)).mapM unpack?
  if labels.all mayStand ∧ directionsFit labels then some (['.'].intercalate (labels.map pack))
  else none

end LanguageServer.Url.Domain
