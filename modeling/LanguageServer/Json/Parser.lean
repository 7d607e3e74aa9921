import LanguageServer.Json.Basic
import LanguageServer.Json.Binary64
import LanguageServer.Text.Hex

/-! Reading JSON: the text is split into tokens, and the tokens are read by the grammar. Nothing
may follow the value, and containers nest less than `maxDepth` deep. A reader that knows which names
it wants passes over the values of the others: those follow the grammar, and nothing else is asked
of them. -/
namespace LanguageServer.Json

inductive Token where
  | openBrace
  | closeBrace
  | openBracket
  | closeBracket
  | comma
  | colon
  | value (j : Json)
  /-- A string with half of a surrogate pair, which is no text. -/
  | brokenText
  /-- A number beyond all doubles. -/
  | hugeNumber

def hex4? (a b c d : Char) : Option Nat := do
  return (((← Text.Hex.digit? a) * 16 + (← Text.Hex.digit? b)) * 16 + (← Text.Hex.digit? c)) * 16
    + (← Text.Hex.digit? d)

/-- The characters up to the closing quote, most recent first, and what follows the quote. The flag
tells whether every unit of a surrogate pair so far had its partner. -/
def readString (whole : Bool) : List Char → List Char → Option (Bool × List Char × List Char)
  | done, '"' :: rest => some (whole, done, rest)
  | done, '\\' :: 'u' :: a :: b :: c :: d :: rest => do
    let unit ← hex4? a b c d
    -- half a pair without its other half is left out, and the text counts as broken
    if unit < 0xD800 ∨ 0xDFFF < unit then readString whole (Char.ofNat unit :: done) rest
    else if 0xDC00 ≤ unit then readString false done rest
    else match rest with
      | '\\' :: 'u' :: a :: b :: c :: d :: more => do
        let low ← hex4? a b c d
        if 0xDC00 ≤ low ∧ low ≤ 0xDFFF then
          readString whole (Char.ofNat (0x10000 + (unit - 0xD800) * 0x400 + (low - 0xDC00)) :: done)
            more
        else readString false done more
      | rest => readString false done rest
  | done, '\\' :: c :: rest =>
    match c with
    | '"' => readString whole ('"' :: done) rest
    | '\\' => readString whole ('\\' :: done) rest
    | '/' => readString whole ('/' :: done) rest
    | 'b' => readString whole ('\x08' :: done) rest
    | 'f' => readString whole ('\x0c' :: done) rest
    | 'n' => readString whole ('\n' :: done) rest
    | 'r' => readString whole ('\r' :: done) rest
    | 't' => readString whole ('\t' :: done) rest
    | _ => none
  | done, c :: rest => if c.toNat < 32 then none else readString whole (c :: done) rest
  | _, [] => none

/-- A run of decimal digits and what follows it. -/
def digits (cs : List Char) : List Char × List Char :=
  (cs.takeWhile Char.isDigit, cs.dropWhile Char.isDigit)

def ofDigits (ds : List Char) : Nat := ds.foldl (fun n d => 10 * n + (d.toNat - 48)) 0

/-- The leading digits that fit 64 bits, and how many digits are left over. -/
def significand : Nat → List Char → Nat × Nat
  | n, [] => (n, 0)
  | n, d :: ds =>
    if 10 * n + (d.toNat - 48) < Nat.pow 2 64 then significand (10 * n + (d.toNat - 48)) ds
    else (n, ds.length + 1)

/-- The double that a number with a point or an exponent, or too large an integer, writes: as many
leading digits as fit 64 bits, scaled by the power of ten. -/
def ofDecimal? (negative : Bool) (whole fraction : List Char) (exponent : Int) : Option Json := do
  let (n, dropped) := significand 0 whole
  let (n, unread) := significand n fraction
  let bits ← Binary64.scale n (exponent + dropped - (fraction.length - unread : Nat))
  return .double (if negative then bits + 0x8000000000000000 else bits)

/-- A number after its sign, and what follows it. -/
def readNumber (negative : Bool) (cs : List Char) : Option (Token × List Char) := do
  let (whole, rest) := digits cs
  let some first := whole.head? | none
  if first = '0' ∧ 1 < whole.length then none
  let (fraction, rest, pointed) ← match rest with
    | '.' :: more =>
      let (f, more) := digits more
      if f.isEmpty then none else some (f, more, true)
    | _ => some ([], rest, false)
  let readExponent (sign : Int) (more : List Char) : Option (Int × List Char × Bool) :=
    let (e, more) := digits more
    if e.isEmpty then none else some (sign * (ofDigits e : Int), more, true)
  let (exponent, rest, scaled) ← match rest with
    | e :: more =>
      if e = 'e' ∨ e = 'E' then
        match more with
        | '+' :: more => readExponent 1 more
        | '-' :: more => readExponent (-1) more
        | more => readExponent 1 more
      else some (0, rest, false)
    | [] => some (0, [], false)
  let n := ofDigits whole
  let j : Option Json :=
    -- what fits 64 bits stays a whole number; `-0` and everything else is a double
    if pointed ∨ scaled then ofDecimal? negative whole fraction exponent
    else if ¬ negative ∧ (n : Int) ≤ maxInt then some (.int n)
    else if negative ∧ n ≠ 0 ∧ minInt ≤ -(n : Int) then some (.int (-(n : Int)))
    else ofDecimal? negative whole [] 0
  return ((j.map Token.value).getD .hugeNumber, rest)

/-- One token and what follows it, or nothing before the end of the text. -/
def readToken (c : Char) (rest : List Char) : Option (Token × List Char) :=
  match c with
  | '{' => some (.openBrace, rest)
  | '}' => some (.closeBrace, rest)
  | '[' => some (.openBracket, rest)
  | ']' => some (.closeBracket, rest)
  | ',' => some (.comma, rest)
  | ':' => some (.colon, rest)
  | '"' => (readString true [] rest).map fun (whole, s, rest) =>
    (if whole then .value (.string (String.ofList s.reverse)) else .brokenText, rest)
  | '-' => readNumber true rest
  | 't' => match rest with
    | 'r' :: 'u' :: 'e' :: rest => some (.value (.bool true), rest)
    | _ => none
  | 'f' => match rest with
    | 'a' :: 'l' :: 's' :: 'e' :: rest => some (.value (.bool false), rest)
    | _ => none
  | 'n' => match rest with
    | 'u' :: 'l' :: 'l' :: rest => some (.value .null, rest)
    | _ => none
  | c => if c.isDigit then readNumber false (c :: rest) else none

def isBlank (c : Char) : Bool := c = ' ' || c = '\n' || c = '\r' || c = '\t'

/-- The tokens of a text; every token takes a character at least. -/
def tokens (fuel : Nat) (cs : List Char) (done : List Token) : Option (List Token) :=
  match fuel, cs with
  | _, [] => some done.reverse
  | 0, _ => none
  | fuel + 1, c :: rest =>
    if isBlank c then tokens fuel rest done
    else match readToken c rest with
      | some (t, rest) => tokens fuel rest (t :: done)
      | none => none

/-- The depth at which a container is refused. -/
def maxDepth : Nat := 128

/-- What a reader wants of a value: all of it, or of a record certain fields alone. -/
inductive Shape where
  | whole
  | record (fields : List (String × Shape))
  deriving Inhabited

namespace Shape

/-- What is wanted of a member; `none` when it is passed over. -/
def member? (name : String) : Shape → Option Shape
  | .whole => some .whole
  | .record fields => fields.lookup name

/-- What is wanted of an item, and of the items after it. -/
def items : Shape → Shape × Shape
  | .record ((_, first) :: rest) => (first, .record rest)
  | _ => (.whole, .whole)

end Shape

/-- Passes over a value by the grammar alone, inside containers of which each is an object or not;
`between` says that a value has just ended. -/
def pass (containers : List Bool) (between : Bool) (ts : List Token) : Option (List Token) :=
  match between, containers, ts with
  | true, [], ts => some ts
  | true, false :: _, .comma :: rest => pass containers false rest
  | true, false :: outer, .closeBracket :: rest => pass outer true rest
  | true, true :: _, .comma :: .value (.string _) :: .colon :: rest => pass containers false rest
  | true, true :: _, .comma :: .brokenText :: .colon :: rest => pass containers false rest
  | true, true :: outer, .closeBrace :: rest => pass outer true rest
  | false, _, .value _ :: rest => pass containers true rest
  | false, _, .brokenText :: rest => pass containers true rest
  | false, _, .hugeNumber :: rest => pass containers true rest
  | false, _, .openBracket :: .closeBracket :: rest => pass containers true rest
  | false, _, .openBracket :: rest => pass (false :: containers) false rest
  | false, _, .openBrace :: .closeBrace :: rest => pass containers true rest
  | false, _, .openBrace :: .value (.string _) :: .colon :: rest => pass (true :: containers) false rest
  | false, _, .openBrace :: .brokenText :: .colon :: rest => pass (true :: containers) false rest
  | _, _, _ => none

mutual

/-- A value by the grammar, and the tokens after it. -/
def readValue (fuel depth : Nat) (shape : Shape) (ts : List Token) : Option (Json × List Token) :=
  match fuel, ts with
  | _, .value j :: rest => some (j, rest)
  | fuel + 1, .openBracket :: rest =>
    if depth ≤ 1 then none
    else match rest with
      | .closeBracket :: rest => some (.array [], rest)
      | rest => readItems fuel (depth - 1) shape [] rest
  | fuel + 1, .openBrace :: rest =>
    if depth ≤ 1 then none
    else match rest with
      | .closeBrace :: rest => some (.object [], rest)
      | rest => readMembers fuel (depth - 1) shape [] rest
  | _, _ => none

def readItems (fuel depth : Nat) (shape : Shape) (done : List Json) (ts : List Token) :
    Option (Json × List Token) :=
  match fuel with
  | 0 => none
  | fuel + 1 =>
    match readValue fuel depth shape.items.1 ts with
    | some (j, .comma :: rest) => readItems fuel depth shape.items.2 (j :: done) rest
    | some (j, .closeBracket :: rest) => some (.array (j :: done).reverse, rest)
    | _ => none

def readMembers (fuel depth : Nat) (shape : Shape) (done : List (String × Json)) (ts : List Token) :
    Option (Json × List Token) :=
  match fuel, ts with
  | fuel + 1, .value (.string n) :: .colon :: rest =>
    let member : Option (List (String × Json) × List Token) := match shape.member? n with
      | some inner => (readValue fuel depth inner rest).map fun (j, rest) => ((n, j) :: done, rest)
      | none => (pass [] false rest).map fun rest => (done, rest)
    match member with
    | some (done, .comma :: rest) => readMembers fuel depth shape done rest
    | some (done, .closeBrace :: rest) => some (.object done.reverse, rest)
    | _ => none
  | _, _ => none

end

/-- What is wanted of the value that a text writes, its objects as written; `none` when the text
writes no value. -/
def parseAs? (shape : Shape) (text : String) : Option Json := do
  let cs := text.toList
  let ts ← tokens (cs.length + 1) cs []
  match ← readValue (ts.length + 1) maxDepth shape ts with
  | (j, []) => some j
  | _ => none

def parse? (text : String) : Option Json := parseAs? .whole text

end LanguageServer.Json
