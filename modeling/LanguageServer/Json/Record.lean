import LanguageServer.Json.Basic

/-! Reading records: a record is an object, or an array that lists its fields in order. -/
namespace LanguageServer.Json

/-- What an object holds under a name: at most one value, or the name is refused. -/
def single? (members : List (String × Json)) (name : String) : Option (Option Json) :=
  match members.filter fun m => m.1 = name with
  | [] => some none
  | [m] => some (some m.2)
  | _ => none

/-- The fields of a record by position. An object may hold other names and may not repeat one of
these; an array may end early. -/
def fields? (names : List String) : Json → Option (List (Option Json))
  | .object members => names.mapM (single? members)
  | .array items =>
    if names.length < items.length then none
    else some (items.map some ++ List.replicate (names.length - items.length) none)
  | _ => none

/-- The fields of a record that has no defaults: an array lists all of them. -/
def wholeFields? (names : List String) (j : Json) : Option (List (Option Json)) :=
  match j with
  | .array items => if items.length = names.length then some (items.map some) else none
  | j => j.fields? names

/-- The fields of a record that lies open in an object: no array stands for it. -/
def openFields? (names : List String) (j : Json) : Option (List (Option Json)) :=
  match j with
  | .object _ => j.fields? names
  | _ => none

def required {α : Type} (read : Json → Option α) (field : Option Json) : Option α :=
  field.bind read

def defaulting {α : Type} (read : Json → Option α) (default : α) : Option Json → Option α
  | none => some default
  | some j => read j

def optional {α : Type} (read : Json → Option α) : Option Json → Option (Option α)
  | none => some none
  | some .null => some none
  | some j => (read j).map some

/-- The name of one of several cases that hold nothing: a string, or an object with null under
that name alone. -/
def choice? : Json → Option String
  | .string s => some s
  | .object [(n, .null)] => some n
  | _ => none

def listOf {α : Type} (read : Json → Option α) : Json → Option (List α)
  | .array items => items.mapM read
  | _ => none

/-- A map from names, in their order. -/
def mapOf {α : Type} (read : Json → Option α) : Json → Option (List (String × α))
  | .object members => (sortMembers members).mapM fun m => (read m.2).map fun v => (m.1, v)
  | _ => none

end LanguageServer.Json
