import LanguageServer.Text.Composition
import LanguageServer.Text.Joining
import LanguageServer.Url.Domain.Characters
import LanguageServer.Url.Punycode

/-! Labels of a domain: written in ASCII or not, and when one may stand in a name. -/
namespace LanguageServer.Url.Domain
open LanguageServer.Text

/-- What marks a label as written in ASCII for one that is not. -/
def mark : List Char := "xn--".toList

def isAscii (cs : List Char) : Bool := cs.all fun c => c.toNat < 128

/-- How long a label beyond ASCII and one that stands for it may be. -/
def longestLabel : Nat := 1000
def longestEncoded : Nat := 2000

/-- What follows the mark of a label that bears it. -/
def encoded? (label : List Char) : Option (List Char) :=
  if mark.isPrefixOf label then some (label.drop mark.length) else none

/-- The label that an encoded one stands for: one that folding and composing leave as it is. -/
def unpack? (label : List Char) : Option (List Char) :=
  match encoded? label with
  | none => some label
  | some body => do
    if body.getLast?.all (· = '-') ∨ longestEncoded < body.length then none
    let plain ← if isAscii body then Punycode.decode body else none
    if plain.all (fun c => isSettled c && !isForbidden c) ∧ compose plain = plain then some plain
    else none

/-- Whether a joiner may stand between two texts, the first given from its end: after a sign that
takes a vowel away, and the one that keeps letters apart also between letters that join. -/
def mayJoin (before : List Char) (joiner : Char) (after : List Char) : Bool :=
  match before with
  | [] => false
  | c :: _ => combiningClass c = viramaClass ||
    (joiner = '\u200C' && (nearestLetter before).any joinsAfter && (nearestLetter after).any joinsBefore)

/-- Whether all joiners of a label stand where they may; what comes before is given from its end. -/
def joinersFit (before : List Char) : List Char → Bool
  | [] => true
  | c :: after =>
    ((c ≠ '\u200C' && c ≠ '\u200D') || mayJoin before c after) && joinersFit (c :: before) after

/-- Whether a label may stand in a name. -/
def mayStand (label : List Char) : Bool :=
  !label.head?.any isMark && joinersFit [] label && (isAscii label || label.length ≤ longestLabel)

/-- A label in ASCII. -/
def pack (label : List Char) : List Char :=
  if isAscii label then label else mark ++ Punycode.encode label

end LanguageServer.Url.Domain
