import LanguageServer.Analyzer.Message

/-! What the answers of the analysis process hold. -/
namespace LanguageServer

/-- The answer to the question whether the process is well. -/
structure Health where
  version : Option String
  pid : Option UInt32
  deriving DecidableEq, Inhabited

namespace Health

def toJson (h : Health) : Json :=
  .object [("pid", .ofOption (fun n => .nat n.toNat) h.pid), ("version", .ofOption .string h.version)]

def ofJson? (j : Json) : Option Health := do
  match ← j.fields? ["version", "pid"] with
  | [version, pid] => some ⟨← Json.optional Json.string? version,
      ← Json.optional (fun j => (j.natOfBits? 32).map Nat.toUInt32) pid⟩
  | _ => none

end Health

/-- A name that a program exports. -/
structure Export where
  name : String
  kind : String
  typeSignature : Option String
  documentation : Option String
  deriving DecidableEq, Inhabited

namespace Export

def toJson (e : Export) : Json :=
  .object [("documentation", .ofOption .string e.documentation), ("kind", .string e.kind),
    ("name", .string e.name), ("type_signature", .ofOption .string e.typeSignature)]

def ofJson? (j : Json) : Option Export := do
  match ← j.fields? ["name", "kind", "type_signature", "documentation"] with
  | [name, kind, typeSignature, documentation] => some {
      name := ← Json.required Json.string? name
      kind := ← Json.required Json.string? kind
      typeSignature := ← Json.optional Json.string? typeSignature
      documentation := ← Json.optional Json.string? documentation }
  | _ => none

end Export

/-- What a compiled program exports and inherits. -/
structure Introspection where
  exports : List Export
  inherits : List String
  deriving DecidableEq, Inhabited

namespace Introspection

def toJson (i : Introspection) : Json :=
  .object [("inherits", .ofList .string i.inherits), ("symbols", .ofList Export.toJson i.exports)]

def ofJson? (j : Json) : Option Introspection := do
  match ← j.fields? ["symbols", "inherits"] with
  | [exports, inherits] => some {
      exports := ← Json.defaulting (Json.listOf Export.ofJson?) [] exports
      inherits := ← Json.defaulting (Json.listOf Json.string?) [] inherits }
  | _ => none

end Introspection

/-- An entry of the index of the standard library. -/
structure StdlibSymbol where
  path : String
  kind : String
  signature : Option String
  documentation : Option String
  version : Option String
  deriving DecidableEq, Inhabited

namespace StdlibSymbol

def toJson (s : StdlibSymbol) : Json :=
  .object [("documentation", .ofOption .string s.documentation), ("kind", .string s.kind),
    ("path", .string s.path), ("signature", .ofOption .string s.signature),
    ("version", .ofOption .string s.version)]

def ofJson? (j : Json) : Option StdlibSymbol := do
  match ← j.fields? ["path", "kind", "signature", "documentation", "version"] with
  | [path, kind, signature, documentation, version] => some {
      path := ← Json.required Json.string? path
      kind := ← Json.required Json.string? kind
      signature := ← Json.optional Json.string? signature
      documentation := ← Json.optional Json.string? documentation
      version := ← Json.optional Json.string? version }
  | _ => none

end StdlibSymbol

/-- Whether imports lead back to where they began; a path begins and ends with the same file. -/
inductive CycleVerdict where
  | acyclic
  | cycle (path : List Url)
  deriving DecidableEq, Inhabited

namespace CycleVerdict

def isCycle : CycleVerdict → Bool
  | .acyclic => false
  | .cycle _ => true

def toJson : CycleVerdict → Json
  | .acyclic => .object [("status", .string "no_cycle")]
  | .cycle path => .object [("path", .ofList Url.toJson path), ("status", .string "cycle")]

/-- An object with the tag `status`, or an array that begins with the tag. -/
def ofJson? : Json → Option CycleVerdict
  | .object members => do
    match ← (← members.lookup "status").string? with
    | "no_cycle" => some .acyclic
    | "cycle" => some (.cycle (← Json.required (Json.listOf Url.ofJson?) (members.lookup "path")))
    | _ => none
  | .array (.string "no_cycle" :: _) => some .acyclic
  | .array [.string "cycle", path] => (Json.listOf Url.ofJson? path).map .cycle
  | _ => none

end CycleVerdict

/-- A symbol that a document sees through its imports: the file it comes from, how many edges away
that file is, and by which kind of import it was reached. -/
structure WaterfallSymbol where
  symbol : Symbol
  source : Url
  depth : Nat
  via : ImportKind
  deriving Inhabited

namespace WaterfallSymbol

def toJson (s : WaterfallSymbol) : Json :=
  .object [("depth", .nat s.depth), ("source", s.source.toJson), ("symbol", s.symbol.toJson),
    ("via", s.via.toJson)]

def ofJson? (j : Json) : Option WaterfallSymbol := do
  match ← j.fields? ["symbol", "source", "depth", "via"] with
  | [symbol, source, depth, via] => some {
      symbol := ← Json.required Symbol.ofJson? symbol
      source := ← Json.required Url.ofJson? source
      depth := ← Json.required (Json.natOfBits? 64) depth
      via := ← Json.required ImportKind.ofJson? via }
  | _ => none

end WaterfallSymbol

/-- All symbols seen from one text up to a depth. -/
structure Waterfall where
  hash : UInt64
  depth : Nat
  symbols : List WaterfallSymbol
  deriving Inhabited

namespace Waterfall

def find? (w : Waterfall) (name : String) : Option WaterfallSymbol :=
  w.symbols.find? fun s => s.symbol.name = name

def toJson (w : Waterfall) : Json :=
  .object [("content_hash", .nat w.hash.toNat), ("depth", .nat w.depth),
    ("symbols", .ofList WaterfallSymbol.toJson w.symbols)]

def ofJson? (j : Json) : Option Waterfall := do
  match ← j.fields? ["content_hash", "depth", "symbols"] with
  | [hash, depth, symbols] => some {
      hash := ← Json.required (fun j => (j.natOfBits? 64).map Nat.toUInt64) hash
      depth := ← Json.required (Json.natOfBits? 64) depth
      symbols := ← Json.required (Json.listOf WaterfallSymbol.ofJson?) symbols }
  | _ => none

end Waterfall

namespace Analyzer

/-- The list under one name, none when the name is absent. -/
def listUnder? {α : Type} (name : String) (read : Json → Option α) (j : Json) : Option (List α) := do
  match ← j.fields? [name] with
  | [xs] => Json.defaulting (Json.listOf read) [] xs
  | _ => none

/-- The value under one name, which may be absent or null. -/
def optionUnder? {α : Type} (name : String) (read : Json → Option α) (j : Json) :
    Option (Option α) := do
  match ← j.fields? [name] with
  | [x] => Json.optional read x
  | _ => none

end Analyzer
end LanguageServer
