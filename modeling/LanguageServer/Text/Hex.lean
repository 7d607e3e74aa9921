/-! Bytes as pairs of hexadecimal digits. -/
namespace LanguageServer.Text.Hex

def digit? (c : Char) : Option Nat :=
  if c.isDigit then some (c.toNat - 48)
  else if 'a' ≤ c ∧ c ≤ 'f' then some (c.toNat - 87)
  else if 'A' ≤ c ∧ c ≤ 'F' then some (c.toNat - 55)
  else none

/-- The bytes that pairs of digits stand for, up to what is no such pair. -/
def decode : List Char → List UInt8
  | a :: b :: rest =>
    match digit? a, digit? b with
    | some x, some y => (x * 16 + y).toUInt8 :: decode rest
    | _, _ => []
  | _ => []

end LanguageServer.Text.Hex
