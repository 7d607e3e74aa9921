import LanguageServer.Analysis.Basic
import LanguageServer.Failure
import LanguageServer.Import.Edge
import LanguageServer.Json.Parser
import LanguageServer.Json.Printer

/-! The lines exchanged with the analysis process: a request for each, and answers that carry the
number of their request. -/
namespace LanguageServer.Analyzer

/-- What the process can be asked. -/
inductive Operation where
  | health
  | parse
  | compile
  | introspect
  | extractImports
  | resolveImport
  | checkCircular
  | waterfallSymbols
  | resolveStdlibSymbol
  deriving DecidableEq, Inhabited

namespace Operation

def all : List Operation :=
  [.health, .parse, .compile, .introspect, .extractImports, .resolveImport, .checkCircular,
    .waterfallSymbols, .resolveStdlibSymbol]

def method : Operation → String
  | .health => "health"
  | .parse => "parse"
  | .compile => "compile"
  | .introspect => "introspect"
  | .extractImports => "extract_imports"
  | .resolveImport => "resolve_import"
  | .checkCircular => "check_circular"
  | .waterfallSymbols => "get_waterfall_symbols"
  | .resolveStdlibSymbol => "resolve_stdlib_symbol"

def ofMethod? (method : String) : Option Operation := all.find? fun o => o.method = method

end Operation

/-- The numbers of requests, of 64 bits. -/
abbrev RequestId := UInt64

def requestId? (j : Json) : Option RequestId := (j.natOfBits? 64).map Nat.toUInt64

structure Request where
  id : RequestId
  method : String
  params : Json
  deriving Inhabited

namespace Request

def toJson (r : Request) : Json :=
  .object [("id", .nat r.id.toNat), ("method", .string r.method), ("params", r.params)]

def ofJson? (j : Json) : Option Request := do
  match ← j.fields? ["id", "method", "params"] with
  | [id, method, params] => some {
      id := ← Json.required requestId? id
      method := ← Json.required Json.string? method
      params := params.getD .null }
  | _ => none

/-- The line that is written, without its end. -/
def line (r : Request) : String := r.toJson.compact

end Request

structure Rejection where
  code : Int
  message : String
  deriving DecidableEq, Inhabited

namespace Rejection

def toJson (r : Rejection) : Json := .object [("code", .int r.code), ("message", .string r.message)]

def ofJson? (j : Json) : Option Rejection := do
  match ← j.fields? ["code", "message"] with
  | [code, message] =>
    some ⟨← Json.required (Json.intOfBits? 64) code, ← Json.required Json.string? message⟩
  | _ => none

end Rejection

/-- One line from the process: an answer if it has a number, else a note. -/
structure Response where
  id : Option RequestId
  result : Option Json
  error : Option Rejection
  message : Option String
  deriving Inhabited

namespace Response

def ok (id : RequestId) (result : Json) : Response := ⟨some id, some result, none, none⟩

def err (id : RequestId) (code : Int) (message : String) : Response :=
  ⟨some id, none, some ⟨code, message⟩, none⟩

/-- Absent fields are left out. -/
def toJson (r : Response) : Json :=
  let field (name : String) (j : Option Json) : List (String × Json) := (j.map (name, ·)).toList
  .object (field "error" (r.error.map Rejection.toJson) ++
    field "id" (r.id.map fun n => .nat n.toNat) ++
    field "message" (r.message.map .string) ++ field "result" r.result)

def ofJson? (j : Json) : Option Response := do
  match ← j.fields? ["id", "result", "error", "message"] with
  | [id, result, error, message] => some {
      id := ← Json.optional requestId? id
      result := ← Json.optional (fun j => some j.canonical) result
      error := ← Json.optional Rejection.ofJson? error
      message := ← Json.optional Json.string? message }
  | _ => none

/-- What is read of a line. -/
def shape : Json.Shape :=
  .record [("id", .whole), ("result", .whole),
    ("error", .record [("code", .whole), ("message", .whole)]), ("message", .whole)]

def ofLine? (line : String) : Option Response := (Json.parseAs? shape line).bind ofJson?

/-- How an answer settles its request: an error counts before a result, and no result is null. -/
def outcome (r : Response) : Except Failure Json :=
  match r.error with
  | some e => .error (.rejected e.code e.message)
  | none => .ok (r.result.getD .null)

end Response

/-- The parameters of a question about a text. -/
def sourceParams (source filename : String) : Json :=
  .object [("filename", .string filename), ("source", .string source)]

def resolveParams (kind : ImportKind) (target : String) (current : Path) : Json :=
  .object [("current_file", .string current.text), ("kind", kind.toJson), ("target", .string target)]

def waterfallParams (source filename : String) (depth : Nat) : Json :=
  .object [("filename", .string filename), ("max_depth", .nat depth), ("source", .string source)]

def stdlibParams (path : String) : Json := .object [("path", .string path)]

end LanguageServer.Analyzer
