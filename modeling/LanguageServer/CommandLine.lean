import LanguageServer.Json.Printer
import LanguageServer.Server.Documents
import LanguageServer.Task.Machine

/-! The command line: the analysis of one file below the working directory, in full as JSON or only
its errors. Without the word for it the program is a language server. -/
namespace LanguageServer.CommandLine

/-- Whether a path stays below the working directory by its text alone and holds nothing odd: no
control that breaks a line, and no letter of a drive. -/
def isSafe (path : String) : Bool :=
  let p : Path := ⟨path⟩
  !path.isEmpty && !p.isAbsolute && !p.components.contains .parent &&
    !(path.toList.any fun c => c = '\x00' || c = '\n' || c = '\r' || c = '\t') &&
    !((path.toUTF8.toList)[1]? == some 58)

def usage : String :=
  "Usage: pike-lsp --analyze [--errors-only] <relative-file-path>\n" ++
  "  --analyze <file>     : Full analysis with JSON output\n" ++
  "  --errors-only        : Show only errors in simple format"

/-- What the arguments ask for. -/
inductive Order where
  | serve
  /-- No file is named. -/
  | unclear
  | analyze (path : String) (errorsOnly : Bool)
  deriving DecidableEq, Inhabited

/-- The file is the first argument after the order that is no option. -/
def Order.ofArguments (args : List String) : Order :=
  match args.dropWhile (· ≠ "--analyze") with
  | [] => .serve
  | _ :: rest =>
    match rest.find? fun a => !("--".toList.isPrefixOf a.toList) with
    | some path => .analyze path (args.contains "--errors-only")
    | none => .unclear

/-- The errors of an analysis, a line for each; lines and columns count from one. -/
def errorLines (a : Analysis) : List String :=
  (a.diagnostics.filter (·.severity = .error)).map fun d =>
    "Line " ++ toString (d.range.start.line + 1).toNat ++ ":" ++
      toString (d.range.start.character + 1).toNat ++ ": " ++ d.message

def errorReport (a : Analysis) : String :=
  match errorLines a with
  | [] => "No errors found"
  | lines => String.intercalate "\n" lines

def fullReport (a : Analysis) (imports : List ImportEdge) : String :=
  (Json.object [("diagnostics", .ofList Diagnostic.toJson a.diagnostics),
    ("imports", .ofList ImportEdge.toJson imports),
    ("symbols", .ofList Symbol.toJson a.symbols)]).pretty

/-- The text of the file at a path, or why it cannot be had. A path that is not safe is not looked at. -/
def content (files : FileTree) (path : String) : Except String String := do
  if !isSafe path then throw ("Unsafe file path: " ++ path)
  match files.read ⟨path⟩ with
  | .error f => throw ("Failed to read file '" ++ path ++ "': " ++ f.message)
  | .ok text => return text

/-- The file to analyse and its text, or why it cannot be. -/
def target (files : FileTree) (path : String) : Except String (Url × String) := do
  let text ← content files path
  match files.canonical? ⟨path⟩ with
  | none => throw ("Failed to resolve '" ++ path ++ "'")
  | some absolute =>
    match Url.ofFilePath? absolute with
    | some u => return (u, text)
    | none => throw ("Not a file path: " ++ absolute.text)

def report (u : Url) (errorsOnly : Bool) : Server.Job (Except String String) := do
  match ← Server.analyze u with
  | .error f => return .error ("analysis failed: " ++ f.message)
  | .ok none => return .error ("Nothing to analyze at " ++ u.text)
  | .ok (some a) =>
    if errorsOnly then return .ok (errorReport a)
    match ← Server.imports u with
    | .error f => return .error ("import extraction failed: " ++ f.message)
    | .ok set => return .ok (fullReport a ((set.map (·.edges)).getD []))

/-- Does what the arguments ask for on a new server; a language server has nothing to report. -/
def perform (args : List String) : Server.Job (Except String (Option String)) := do
  match Order.ofArguments args with
  | .serve => return .ok none
  | .unclear => return .error usage
  | .analyze path errorsOnly =>
    match ← Task.read fun s => target s.around.files path with
    | .error message => return .error message
    | .ok (u, text) =>
      let _ ← Task.update (Server.openDocument u 0 text)
      let output ← report u errorsOnly
      Server.shutDown
      return output.map some

/-- What the arguments come to on a server where nothing else happens; none if that never ends. -/
def result? (s : Server) (args : List String) : Option (Except String (Option String)) :=
  let whole : Lens (Server × Option (Except String (Option String))) Server :=
    ⟨(·.1), fun s p => (s, p.2)⟩
  let task : Task (Server × Option (Except String (Option String))) Unit := do
    let r ← (perform args).zoom whole
    Task.modify fun p => (p.1, some r)
  (Machine.runTask (Nat.pow 10 12) (Machine.start (s, none)) task).state.2

/-- What the program leaves behind. -/
structure Outcome where
  code : Nat
  stdout : String
  stderr : String
  deriving DecidableEq, Inhabited

def outcome : Except String (Option String) → Outcome
  | .ok none => ⟨0, "", ""⟩
  | .ok (some text) => ⟨0, text ++ "\n", ""⟩
  | .error message => ⟨2, "", "pike-lsp analyze error: " ++ message ++ "\n"⟩

end LanguageServer.CommandLine
