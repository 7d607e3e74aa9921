import LanguageServer.Text.Hex
import LanguageServer.Text.Split

/-! Addresses of version 4 and 6, as they are read and as they are written. -/
namespace LanguageServer.Url.Address
open LanguageServer.Text

def ofDigits (base : Nat) (ds : List Char) : Option Nat :=
  ds.foldlM (fun n d => do
    let v ← Hex.digit? d
    if v < base then some (n * base + v) else none) 0

/-- A part of a version 4 address, in base 8, 10 or 16. -/
def number? (part : List Char) : Option Nat :=
  match part with
  | [] => none
  | '0' :: x :: rest => if x = 'x' ∨ x = 'X' then ofDigits 16 rest else ofDigits 8 (x :: rest)
  | part => ofDigits 10 part

/-- The parts of a name, an empty one at the end left out. -/
def parts (cs : List Char) : List (List Char) :=
  let all := split '.' cs
  if 1 < all.length ∧ all.getLast? = some [] then all.dropLast else all

/-- Whether a name has to be read as a version 4 address. -/
def endsInNumber (cs : List Char) : Bool :=
  (parts cs).getLast?.any fun last =>
    !last.isEmpty && (last.all Char.isDigit || (number? last).isSome)

/-- A version 4 address: the last part fills the bytes that the parts before it leave. -/
def version4? (cs : List Char) : Option (List Char) := do
  let ps := parts cs
  if 4 < ps.length then none
  let ns ← ps.mapM number?
  let last ← ns.getLast?
  let front := ns.dropLast
  if front.any (255 < ·) ∨ Nat.pow 256 (5 - ns.length) ≤ last then none
  let high := front.foldl (fun n b => n * 256 + b) 0
  let address := high * Nat.pow 256 (4 - front.length) + last
  let bytes := [address / 16777216, address / 65536 % 256, address / 256 % 256, address % 256]
  return String.intercalate "." (bytes.map toString) |>.toList

/-- A byte of the version 4 part: without leading zeros. -/
def byte? (p : List Char) : Option Nat :=
  if p.isEmpty ∨ 3 < p.length ∨ (1 < p.length ∧ p.head? = some '0') then none
  else (ofDigits 10 p).bind fun n => if n < 256 then some n else none

def piece? (p : List Char) : Option Nat :=
  if p.isEmpty ∨ 4 < p.length then none else ofDigits 16 p

/-- The 16-bit pieces that colons separate; where the address ends, four bytes may stand for the
last two. -/
def pieces? (atEnd : Bool) (cs : List Char) : Option (List Nat) :=
  if cs.isEmpty then some []
  else
    let ps := split ':' cs
    match ps.getLast? with
    | some last =>
      if atEnd ∧ last.contains '.' then do
        match ← (split '.' last).mapM byte? with
        | [a, b, c, d] => return (← ps.dropLast.mapM piece?) ++ [a * 256 + b, c * 256 + d]
        | _ => none
      else ps.mapM piece?
    | none => none

/-- What stands before and after the first double colon. -/
def cutGap : List Char → Option (List Char × List Char)
  | ':' :: ':' :: rest => some ([], rest)
  | c :: rest => (cutGap rest).map fun (a, b) => (c :: a, b)
  | [] => none

/-- The longest run of zeros, of two or more: where it begins and how long it is. -/
def longestZeros (ns : List Nat) : Option (Nat × Nat) :=
  let runAt (i : Nat) := ((ns.drop i).takeWhile (· = 0)).length
  (List.range ns.length).foldl (fun best i =>
    let n := runAt i
    match best with
    | some (_, m) => if m < n then some (i, n) else best
    | none => if 1 < n then some (i, n) else none) none

def hexText (n : Nat) : String := String.ofList (Nat.toDigits 16 n)

/-- The eight pieces of a version 6 address; a double colon stands for one zero or more. -/
def eightPieces? (cs : List Char) : Option (List Nat) :=
  match cutGap cs with
  | some (before, after) => do
    let front ← pieces? false before
    let back ← pieces? true after
    if 8 ≤ front.length + back.length then none
    some (front ++ List.replicate (8 - front.length - back.length) 0 ++ back)
  | none => do
    let ns ← pieces? true cs
    if ns.length = 8 then some ns else none

/-- A version 6 address with its longest run of zeros left out. -/
def version6? (cs : List Char) : Option (List Char) := do
  let ns ← eightPieces? cs
  let join (ns : List Nat) := String.intercalate ":" (ns.map hexText)
  let body := match longestZeros ns with
    | some (i, n) => join (ns.take i) ++ "::" ++ join (ns.drop (i + n))
    | none => join ns
  return '[' :: body.toList ++ [']']

end LanguageServer.Url.Address
