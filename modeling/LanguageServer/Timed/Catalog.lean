import LanguageServer.Json.Record
import LanguageServer.Timed.Listing

/-! Catalogs of template tags, by the process that reported them and the server they belong to. A
restarted process has a new number and sees none of the old catalogs. -/
namespace LanguageServer.Timed

structure TagAttribute where
  name : String
  required : Bool
  deriving DecidableEq

structure Tag where
  name : String
  type : String
  description : Option String
  attributes : List TagAttribute
  deriving DecidableEq

namespace TagAttribute

def toJson (a : TagAttribute) : Json := .object [("name", .string a.name), ("required", .bool a.required)]

def ofJson? (j : Json) : Option TagAttribute := do
  match ← j.fields? ["name", "required"] with
  | [name, required] =>
    some ⟨← Json.required Json.string? name, ← Json.defaulting Json.bool? false required⟩
  | _ => none

end TagAttribute

namespace Tag

def toJson (t : Tag) : Json :=
  .object [("attributes", .ofList TagAttribute.toJson t.attributes),
    ("description", .ofOption .string t.description), ("name", .string t.name),
    ("type", .string t.type)]

def ofJson? (j : Json) : Option Tag := do
  match ← j.fields? ["name", "type", "description", "attributes"] with
  | [name, type, description, attributes] => some {
      name := ← Json.required Json.string? name
      type := ← Json.required Json.string? type
      description := ← Json.optional Json.string? description
      attributes := ← Json.defaulting (Json.listOf TagAttribute.ofJson?) [] attributes }
  | _ => none

end Tag

/-- A process and a server. -/
structure CatalogKey where
  pid : UInt32
  server : String
  deriving DecidableEq

abbrev Catalogs := Cache CatalogKey (List Tag)

def Catalogs.statistics (c : Catalogs) : Statistics :=
  .ofKeys (c.keys.map fun k => toString k.pid.toNat ++ ":" ++ k.server)

end LanguageServer.Timed
