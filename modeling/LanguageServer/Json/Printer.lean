import LanguageServer.Json.Basic
import LanguageServer.Json.Binary64

/-! Writing JSON, on one line or indented. -/
namespace LanguageServer.Json

/-- A digit below sixteen, in lower case. -/
def hexDigit (n : Nat) : Char :=
  if n < 10 then Char.ofNat (48 + n) else Char.ofNat (87 + n)

def escapeChar (c : Char) : List Char :=
  if c = '"' then ['\\', '"']
  else if c = '\\' then ['\\', '\\']
  else if c = '\n' then ['\\', 'n']
  else if c = '\r' then ['\\', 'r']
  else if c = '\t' then ['\\', 't']
  else if c.toNat = 8 then ['\\', 'b']
  else if c.toNat = 12 then ['\\', 'f']
  else if c.toNat < 32 then
    ['\\', 'u', '0', '0', hexDigit (c.toNat / 16), hexDigit (c.toNat % 16)]
  else [c]

def quote (s : String) : List Char := '"' :: s.toList.flatMap escapeChar ++ ['"']

/-- The spelling of a value that holds no other. -/
def scalar : Json → List Char
  | .bool true => ['t', 'r', 'u', 'e']
  | .bool false => ['f', 'a', 'l', 's', 'e']
  | .int n => (toString n).toList
  | .double bits => (Binary64.text bits).toList
  | .string s => quote s
  | _ => ['n', 'u', 'l', 'l']

/-- Where the items of a container stand: all on one line, or each on its own. -/
inductive Layout where
  | line
  | indented
  deriving DecidableEq

/-- What stands before an item at some depth. -/
def Layout.gap : Layout → Nat → List Char
  | .line, _ => []
  | .indented, depth => '\n' :: List.replicate (2 * depth) ' '

/-- What stands between a name and its value. -/
def Layout.colon : Layout → List Char
  | .line => [':']
  | .indented => [':', ' ']

mutual

/-- The characters of a value, in front of what follows it. -/
def write (layout : Layout) (depth : Nat) (j : Json) (rest : List Char) : List Char :=
  match j with
  | .array [] => '[' :: ']' :: rest
  | .array items => '[' :: writeItems layout (depth + 1) items
      (layout.gap depth ++ ']' :: rest)
  | .object [] => '{' :: '}' :: rest
  | .object members => '{' :: writeMembers layout (depth + 1) members
      (layout.gap depth ++ '}' :: rest)
  | other => scalar other ++ rest

def writeItems (layout : Layout) (depth : Nat) (items : List Json) (rest : List Char) :
    List Char :=
  match items with
  | [] => rest
  | [j] => layout.gap depth ++ write layout depth j rest
  | j :: more => layout.gap depth ++ write layout depth j (',' :: writeItems layout depth more rest)

def writeMembers (layout : Layout) (depth : Nat) (members : List (String × Json))
    (rest : List Char) : List Char :=
  match members with
  | [] => rest
  | [(n, j)] => layout.gap depth ++ (quote n ++ (layout.colon ++ write layout depth j rest))
  | (n, j) :: more => layout.gap depth ++ (quote n ++ (layout.colon ++
      write layout depth j (',' :: writeMembers layout depth more rest)))

end

def compact (j : Json) : String := String.ofList (j.write .line 0 [])

/-- A value with each item on a line of its own, two spaces further in than its container. -/
def pretty (j : Json) : String := String.ofList (j.write .indented 0 [])

end LanguageServer.Json
