import LanguageServer.Editor.Protocol
import LanguageServer.Editor.Session

/-! Diagnostics of a document, told a while after an edit unless another edit comes before. -/
namespace LanguageServer.Editor

/-- How long an opened document and an edited one rest before they are checked. -/
def restAfterOpening : Duration := .ofMillis 150
def restAfterEdit : Duration := .ofMillis 250

/-- Why there is no analysis, in words for the user. -/
def reason : Failure → String
  | .crashed _ => "the analysis process crashed; it restarts on the next request"
  | f => f.message

/-- A way to compile a text under a file name. -/
abbrev Compiler := String → String → Server.Job (Except Failure Analysis)

/-- What an analysis diagnoses; if there could be none, one diagnostic that says so. -/
def diagnosticsOf : Except Failure (Option Analysis) → List Diagnostic
  | .ok (some a) => a.diagnostics
  | .ok none => []
  | .error f => [unavailable (reason f)]

def diagnose (u : Url) (compile : Compiler := Server.compile) : Action (List Diagnostic) := do
  return diagnosticsOf (← onServer (Server.analyzeBy compile u))

/-- Tells the diagnostics of a document, and of which version they are. -/
def publish (u : Url) (ds : List Diagnostic) (version : Option Int) : Action Unit :=
  tell "textDocument/publishDiagnostics" (.object ([("diagnostics", .ofList diagnostic ds),
    ("uri", u.toJson)] ++ field "version" (version.map .int)))

/-- The name under which the progress of a check is told. -/
def checkToken (u : Url) : Json := .string ("pike:diag:" ++ u.text)

def progress (u : Url) (value : List (String × Json)) : Action Unit :=
  tell "$/progress" (.object [("token", checkToken u), ("value", .object value)])

/-- Whether a document is still open at a version, after as many edits as had been seen of it. -/
def isCurrent (u : Url) (version : Int) (seen : Option UInt64) (s : Session) : Bool :=
  (s.revisions.find? u).any fun r => r.version = version && some r.edits = seen

/-- Checks a document; the diagnostics are told if it is still as it was seen. -/
def check (u : Url) (version : Int) (seen : Option UInt64) (compile : Compiler := Server.compile) :
    Action Unit := do
  let _ ← ask "window/workDoneProgress/create" (.object [("token", checkToken u)])
  progress u [("cancellable", .bool false), ("kind", .string "begin"), ("message", .string u.text),
    ("title", .string "Pike: Checking")]
  let ds ← diagnose u compile
  if ← Task.read (isCurrent u version seen) then publish u ds (some version)
  progress u [("kind", .string "end"), ("message", .string "Checking complete")]

/-- Checks a document after a rest, unless it was edited or closed meanwhile. -/
def checkLater (u : Url) (version : Int) (seen : Option UInt64) (rest : Duration)
    (compile : Compiler := Server.compile) : Action Unit := do
  Task.sleep rest
  if ← Task.read (isCurrent u version seen) then check u version seen compile

/-- Lets a document be checked after a rest. -/
def schedule (u : Url) (version : Int) (rest : Duration) (compile : Compiler := Server.compile) :
    Action Unit := do
  let seen ← Task.read fun (s : Session) => (s.revisions.find? u).map (·.edits)
  let _ ← Task.fork (checkLater u version seen rest compile)

end LanguageServer.Editor
