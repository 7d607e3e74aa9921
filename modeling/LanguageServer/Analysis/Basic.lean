import LanguageServer.Symbol.Codec

/-! What the analysis of one text finds: symbols, diagnostics and where names occur. -/
namespace LanguageServer

inductive Severity where
  | error
  | warning
  | information
  | hint
  deriving DecidableEq, Inhabited

namespace Severity

def label : Severity → String
  | .error => "error"
  | .warning => "warning"
  | .information => "information"
  | .hint => "hint"

def ofLabel? (s : String) : Option Severity :=
  [Severity.error, .warning, .information, .hint].find? fun k => k.label = s

end Severity

/-- A message about a range of a document. -/
structure Diagnostic where
  range : Range
  severity : Severity
  message : String
  deriving DecidableEq, Inhabited

namespace Diagnostic

def toJson (d : Diagnostic) : Json :=
  .object [("message", .string d.message), ("range", d.range.toJson),
    ("severity", .string d.severity.label)]

def ofJson? (j : Json) : Option Diagnostic := do
  match ← j.fields? ["range", "severity", "message"] with
  | [range, severity, message] => some {
      range := ← Json.required Range.ofJson? range
      severity := ← Json.required (fun j => j.choice?.bind Severity.ofLabel?) severity
      message := ← Json.required Json.string? message }
  | _ => none

end Diagnostic

/-- The findings for one text. The index lists, for every name, all places where it occurs. -/
structure Analysis where
  symbols : List Symbol
  diagnostics : List Diagnostic
  index : List (String × List Position)
  deriving Inhabited

namespace Analysis

/-- Every selection moved inside the range of its symbol. -/
def normalize (a : Analysis) : Analysis := { a with symbols := Symbol.normalizeAll a.symbols }

/-- All symbols, each before those inside it. -/
def walk (a : Analysis) : List Symbol := Symbol.walk a.symbols

/-- The first symbol that defines a name. -/
def definition? (a : Analysis) (name : String) : Option Symbol :=
  a.walk.find? fun s => s.name = name && !s.isDeclarationOnly

def defines (a : Analysis) (name : String) : Bool := (a.definition? name).isSome

/-- The innermost accepted symbol at a position. -/
def innermost? (a : Analysis) (p : Position) (accept : Symbol → Bool) : Option Symbol :=
  Symbol.innermost accept p none a.symbols

/-- The places where a name occurs. -/
def occurrences (a : Analysis) (name : String) : List Position := (a.index.lookup name).getD []

def hasErrors (a : Analysis) : Bool := a.diagnostics.any fun d => d.severity = .error

def toJson (a : Analysis) : Json :=
  .object [("diagnostics", .ofList Diagnostic.toJson a.diagnostics),
    ("symbol_positions", .ofMembers (a.index.map fun (n, ps) => (n, .ofList Position.toJson ps))),
    ("symbols", .ofList Symbol.toJson a.symbols)]

def ofJson? (j : Json) : Option Analysis := do
  match ← j.fields? ["symbols", "diagnostics", "symbol_positions"] with
  | [symbols, diagnostics, index] => some {
      symbols := ← Json.defaulting (Json.listOf Symbol.ofJson?) [] symbols
      diagnostics := ← Json.defaulting (Json.listOf Diagnostic.ofJson?) [] diagnostics
      index := ← Json.defaulting (Json.mapOf (Json.listOf Position.ofJson?)) [] index }
  | _ => none

end Analysis
end LanguageServer
