import LanguageServer.Editor.Checking

/-! What happens when an editor starts up, edits and saves. -/
namespace LanguageServer.Editor

/-- Shows the user a message: an error or a warning. -/
def showMessage (level : Nat) (text : String) : Action Unit :=
  tell "window/showMessage" (.object [("message", .string text), ("type", .nat level)])

/-- The settings in the first item of an answer, if they are in form. -/
def settings? (answer : Option Json) : Option Configuration.Section := do
  let items ← (← answer).array?
  Configuration.Section.ofJson? (← items.head?)

/-- Asks for the settings and puts them over the configuration. -/
def loadConfiguration : Action Unit := do
  let answer ← ask "workspace/configuration"
    (.object [("items", .array [.object [("section", .string "pike")]])])
  Task.modify fun s => match settings? answer with
    | some c => { s with configuration := s.configuration.merge c }
    | none => s

/-- Tells the user about every crash of the process from now on. -/
def watch : Action Unit := do
  let seen ← onServer (Task.read (·.client.events.length))
  let _ ← Task.fork <| Task.repeatFrom seen fun seen => do
    let e ← Task.await fun (s : Session) => (s.server.client.events[seen]?).map (·, s)
    match e with
    | .crashed _ =>
      showMessage 2 "Pike analysis process crashed; it will restart on the next request"
    | _ => pure ()
    return (.inl (seen + 1) : Nat ⊕ Unit)

/-- Starts the process and lists the workspace. -/
def warmUp : Action Unit := do
  let roots ← Task.read (·.roots)
  match ← onServer Server.ensureStarted with
  | .error f => showMessage 1 ("Pike analysis unavailable: " ++ f.message)
  | .ok () =>
    let _ ← onServer (Server.scanRoots roots)

/-- The editor is ready: hierarchies of types are registered, and the process is started. -/
def ready : Action Unit := do
  loadConfiguration
  let _ ← ask "client/registerCapability" (.object [("registrations", .array [.object
    [("id", .string "pike-type-hierarchy"),
      ("method", .string "textDocument/prepareTypeHierarchy")]])])
  watch
  let _ ← Task.fork warmUp
  tell "window/logMessage" (.object [("message", .string "Pike Language Server started"),
    ("type", .nat 3)])

def opened (u : Url) (version : Int) (text : String) (compile : Compiler := Server.compile) :
    Action Unit := do
  let _ ← onServer (Task.update (Server.openDocument u version text))
  Task.modify (Session.revise u version)
  schedule u version restAfterOpening compile

/-- An edit of a document; nothing happens to one that is not open. -/
def changed (u : Url) (version : Int) (edits : List Edit) (compile : Compiler := Server.compile) :
    Action Unit := do
  match ← onServer (Task.update (Server.changeDocument u version edits)) with
  | none => return
  | some _ =>
    Task.modify (Session.revise u version)
    schedule u version restAfterEdit compile

def saved (u : Url) (compile : Compiler := Server.compile) : Action Unit := do
  onServer (Task.modify (Server.saveDocument u))
  match ← Task.read fun (s : Session) => s.revisions.find? u with
  | some r => schedule u r.version ⟨0⟩ compile
  | none => return

/-- A closed document has no diagnostics any more. -/
def closed (u : Url) : Action Unit := do
  onServer (Task.modify (Server.closeDocument u))
  Task.modify fun (s : Session) => { s with revisions := s.revisions.erase u }
  publish u [] none

def filesChanged (us : List Url) : Action Unit :=
  Task.forEach us fun u => onServer (Task.modify (Server.fileChanged u))

end LanguageServer.Editor
