import LanguageServer.Position
import LanguageServer.Url.Codec

/-! The dependencies that a document declares. -/
namespace LanguageServer

inductive ImportKind where
  | includeFile
  | importModule
  | inheritProgram
  | requireModule
  deriving DecidableEq, Inhabited

namespace ImportKind

def label : ImportKind → String
  | .includeFile => "include"
  | .importModule => "import"
  | .inheritProgram => "inherit"
  | .requireModule => "require"

def ofLabel? (s : String) : Option ImportKind :=
  [ImportKind.includeFile, .importModule, .inheritProgram, .requireModule].find? fun k => k.label = s

def toJson (k : ImportKind) : Json := .string k.label

def ofJson? (j : Json) : Option ImportKind := j.choice?.bind ofLabel?

end ImportKind

/-- A declared dependency and the file it was found in, if it was. -/
structure ImportEdge where
  kind : ImportKind
  target : String
  resolved : Option Path
  range : Option Range
  deriving DecidableEq, Inhabited

namespace ImportEdge

/-- The URL of the file that was found; a relative path has none. -/
def url? (e : ImportEdge) : Option Url := e.resolved.bind Url.ofFilePath?

def toJson (e : ImportEdge) : Json :=
  .object [("declared_target", .string e.target), ("kind", e.kind.toJson),
    ("range", .ofOption Range.toJson e.range), ("resolved_path", .ofOption Path.toJson e.resolved)]

def ofJson? (j : Json) : Option ImportEdge := do
  match ← j.fields? ["kind", "declared_target", "resolved_path", "range"] with
  | [kind, target, resolved, range] => some {
      kind := ← Json.required ImportKind.ofJson? kind
      target := ← Json.required Json.string? target
      resolved := ← Json.optional Path.ofJson? resolved
      range := ← Json.optional Range.ofJson? range }
  | _ => none

end ImportEdge
end LanguageServer
