import LanguageServer.Editor.Params

/-! Forms of JSON values, for what an editor sends and the server only has to understand. -/
namespace LanguageServer.Editor

/-- Which values are of a form. -/
abbrev Form := Json → Bool

namespace Form

/-- What a reader can read. -/
def readable {α : Type} (read : Json → Option α) : Form := fun j => (read j).isSome

def anything : Form := fun _ => true
def string : Form := readable Json.string?
def flag : Form := readable Json.bool?
def natural : Form := readable (Json.natOfBits? 32)
def integer : Form := readable (Json.intOfBits? 32)
def url : Form := readable Url.ofJson?
def position : Form := readable Position.ofJson?
def range : Form := readable Range.ofJson?
def document : Form := readable document?
def token : Form := readable token?

def number : Form
  | .int _ => true
  | .double _ => true
  | _ => false

def oneOf (names : List String) : Form := fun j => (j.choice?).any names.contains

def list (f : Form) : Form
  | .array items => items.all f
  | _ => false

def either (f g : Form) : Form := fun j => f j || g j

/-- An object whose names and values are of two forms. -/
def map (name : String → Bool) (f : Form) : Form
  | .object members => members.all fun m => name m.1 && f m.2
  | _ => false

def nullable (f : Form) : Form
  | .null => true
  | j => f j

/-- When a field of a record may be missing. -/
inductive Presence where
  | needed
  /-- It may be missing or null in an object; an array has something in its place. -/
  | optional
  /-- It may be missing, in an array at its end. -/
  | defaulted
  deriving DecidableEq

structure Field where
  name : String
  presence : Presence
  form : Form

def need (name : String) (f : Form) : Field := ⟨name, .needed, f⟩

def may (name : String) (f : Form) : Field := ⟨name, .optional, nullable f⟩

/-- A field that has a value without being there. -/
def supposed (name : String) (f : Form) : Field := ⟨name, .defaulted, f⟩

def Field.accepts (f : Field) : Option Json → Bool
  | none => f.presence ≠ .needed
  | some j => f.form j

/-- Whether the values of fields, in order, are what they have to be. -/
def allAccept (fields : List Field) (values : List (Option Json)) : Bool :=
  (fields.zip values).all fun p => p.1.accepts p.2

/-- The members of an object that a record knows. -/
def known (fields : List Field) (members : List (String × Json)) : Bool :=
  ((Json.object members).fields? (fields.map (·.name))).any (allAccept fields)

/-- A record that lies open in an object. -/
def openRecord (fields : List Field) : Form
  | .object members => known fields members
  | _ => false

/-- A record: an object, or an array of its fields in order. -/
def record (fields : List Field) : Form
  | .object members => known fields members
  | .array items =>
    items.length ≤ fields.length && allAccept fields (items.map some) &&
      (fields.drop items.length).all (·.presence = .defaulted)
  | _ => false

/-- A record that lies open in an object, whose other members are of a form. -/
def openRecordWith (fields : List Field) (others : Form) : Form
  | .object members => known fields members &&
      members.all fun m => (fields.map (·.name)).contains m.1 || others m.2
  | _ => false

/-- One of several records, told apart by a name or by its place in the list: in an object under
`tag`, in an array before the fields. -/
def tagged (tag : String) (kinds : List (String × List Field)) : Form := fun j =>
  let ofKind (k : Json) (body : Json) : Bool :=
    match k with
    | .string name => (kinds.lookup name).any (record · body)
    | k => ((k.natOfBits? 64).bind (kinds[·]?)).any (record ·.2 body)
  match j with
  | .object members => (members.lookup tag).any fun k => ofKind k j
  | .array (k :: items) => ofKind k (.array items)
  | _ => false

def pair (f g : Form) : Form
  | .array [a, b] => f a && g b
  | _ => false

end Form
end LanguageServer.Editor
