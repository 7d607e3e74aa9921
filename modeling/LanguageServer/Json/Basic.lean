/-! JSON values, and the form in which every name of an object stands once and in order. -/
namespace LanguageServer

/-- A JSON value. An object lists its members as they were written, repeated names included. -/
inductive Json where
  | null
  | bool (value : Bool)
  | int (value : Int)
  | double (bits : UInt64)
  | string (text : String)
  | array (items : List Json)
  | object (members : List (String × Json))
  deriving Inhabited, BEq

namespace Json

/-- The integers a JSON number may stand for: 64 bits, with or without a sign. -/
def minInt : Int := -9223372036854775808
def maxInt : Int := 18446744073709551615

/-- Puts a member where its name belongs; an earlier one of that name is replaced. -/
def insertMember {α : Type} (name : String) (value : α) :
    List (String × α) → List (String × α)
  | [] => [(name, value)]
  | (n, v) :: rest =>
    if name < n then (name, value) :: (n, v) :: rest
    else if name = n then (name, value) :: rest
    else (n, v) :: insertMember name value rest

/-- Members by name in code point order; of a repeated name the last one counts. -/
def sortMembers {α : Type} (members : List (String × α)) : List (String × α) :=
  members.foldl (fun sorted m => insertMember m.1 m.2 sorted) []

mutual

/-- The value with the members of every object sorted. -/
def canonical : Json → Json
  | .array items => .array (canonicalItems items)
  | .object members => .object (sortMembers (canonicalMembers members))
  | other => other

def canonicalItems : List Json → List Json
  | [] => []
  | j :: rest => canonical j :: canonicalItems rest

def canonicalMembers : List (String × Json) → List (String × Json)
  | [] => []
  | (n, j) :: rest => (n, canonical j) :: canonicalMembers rest

end

def ofMembers (members : List (String × Json)) : Json := .object (sortMembers members)

def nat (n : Nat) : Json := .int n

def ofOption {α : Type} (encode : α → Json) : Option α → Json
  | none => .null
  | some a => encode a

def ofList {α : Type} (encode : α → Json) (xs : List α) : Json := .array (xs.map encode)

def member? (name : String) : Json → Option Json
  | .object members => members.lookup name
  | _ => none

def string? : Json → Option String
  | .string s => some s
  | _ => none

def bool? : Json → Option Bool
  | .bool b => some b
  | _ => none

def int? : Json → Option Int
  | .int n => some n
  | _ => none

def array? : Json → Option (List Json)
  | .array items => some items
  | _ => none

/-- An integer between two bounds; a number written with a point is none. -/
def intBetween? (low high : Int) (j : Json) : Option Int :=
  j.int?.bind fun n => if low ≤ n ∧ n ≤ high then some n else none

/-- A natural number below `2 ^ bits`. -/
def natOfBits? (bits : Nat) (j : Json) : Option Nat :=
  (j.intBetween? 0 ((Nat.pow 2 bits : Int) - 1)).map Int.toNat

/-- An integer of so many bits, one of them for the sign. -/
def intOfBits? (bits : Nat) (j : Json) : Option Int :=
  let half : Int := Nat.pow 2 (bits - 1)
  j.intBetween? (-half) (half - 1)

end Json
end LanguageServer
