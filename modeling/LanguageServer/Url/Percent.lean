import LanguageServer.Text.Hex
import LanguageServer.Text.Utf8

/-! Percent-encoding: a byte as a percent sign and two hexadecimal digits. -/
namespace LanguageServer.Percent

def upperHex (n : Nat) : Char := if n < 10 then Char.ofNat (48 + n) else Char.ofNat (55 + n)

def encodeByte (b : UInt8) : List Char := ['%', upperHex (b.toNat / 16), upperHex (b.toNat % 16)]

/-- Controls, and everything beyond ASCII. -/
def isControl (c : Char) : Bool := c.toNat < 32 || 127 ≤ c.toNat

def isQuery (c : Char) : Bool := isControl c || [' ', '"', '#', '<', '>'].contains c
def isSpecialQuery (c : Char) : Bool := isQuery c || c = '\''
def isFragment (c : Char) : Bool := isControl c || [' ', '"', '<', '>', '`'].contains c
def isPath (c : Char) : Bool := isFragment c || ['#', '?', '{', '}'].contains c
def isUserinfo (c : Char) : Bool :=
  isPath c || ['/', ':', ';', '=', '@', '[', '\\', ']', '^', '|'].contains c

/-- What a name of a file may not hold as it stands. -/
def isSegment (c : Char) : Bool := isPath c || ['/', '%', '\\'].contains c

/-- A character, its bytes encoded if it is in a set. -/
def encodeChar (set : Char → Bool) (c : Char) : List Char :=
  if set c then (Text.Utf8.encodeChar c).flatMap encodeByte else [c]

def encode (set : Char → Bool) (cs : List Char) : List Char := cs.flatMap (encodeChar set)

/-- The bytes of a text, an encoded byte for itself; a percent sign alone stands for itself. -/
def decode : List Char → List UInt8
  | [] => []
  | '%' :: a :: b :: rest =>
    match Text.Hex.digit? a, Text.Hex.digit? b with
    | some x, some y => (16 * x + y).toUInt8 :: decode rest
    | _, _ => '%'.toNat.toUInt8 :: decode (a :: b :: rest)
  | c :: rest => Text.Utf8.encodeChar c ++ decode rest

end LanguageServer.Percent
