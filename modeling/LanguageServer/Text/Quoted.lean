import LanguageServer.Text.Unprintable

/-! Text between quotes, its unprintable characters spelled out. -/
namespace LanguageServer.Text.Quoted

def hex (n : Nat) : List Char := (Nat.toDigits 16 n)

def escape (c : Char) : List Char :=
  if c = '"' then ['\\', '"']
  else if c = '\'' then ['\\', '\'']
  else if c = '\\' then ['\\', '\\']
  else if c = '\t' then ['\\', 't']
  else if c = '\r' then ['\\', 'r']
  else if c = '\n' then ['\\', 'n']
  else if c.toNat = 0 then ['\\', '0']
  else if isUnprintable c then '\\' :: 'u' :: '{' :: hex c.toNat ++ ['}']
  else [c]

def encode (s : String) : String := String.ofList ('"' :: s.toList.flatMap escape ++ ['"'])

end LanguageServer.Text.Quoted
