import LanguageServer.Editor.Events
import LanguageServer.Editor.Introduction
import LanguageServer.Editor.Requests
import LanguageServer.Editor.Unserved

/-! What comes of a message from the editor: which phase admits it, what it has to carry, and what
is done. -/
namespace LanguageServer.Editor

structure Incoming where
  method : String
  params : Option Json
  /-- Whether it is a request, which is to be answered. -/
  wantsAnswer : Bool
  deriving Inhabited

inductive Refusal where
  | invalidRequest
  | unknownMethod
  | invalidParams
  | notInitialized
  deriving DecidableEq, Inhabited

/-- The number of a refusal in the protocol. -/
def Refusal.code : Refusal → Int
  | .invalidRequest => -32600
  | .unknownMethod => -32601
  | .invalidParams => -32602
  | .notInitialized => -32002

inductive Answer where
  | nothing
  | result (j : Json)
  | refused (r : Refusal)
  /-- The server has exited. -/
  | gone
  deriving Inhabited

/-- How a method is served once the parameters are read. -/
inductive Service where
  | request (read : Json → Option (Action Json))
  /-- A request that is turned down once its parameters are read. -/
  | unserved (form : Form)
  | notification (read : Json → Option (Action Unit))

/-- Nothing is carried; other names may stand there. -/
def empty? (j : Json) : Option Unit := (j.wholeFields? []).map fun _ => ()

/-- The methods that need an initialized session. -/
def service? (method : String) : Option Service :=
  match method with
  | "textDocument/hover" => some (.request fun j => (place? j).map fun (u, p) => hover u p)
  | "textDocument/documentSymbol" =>
    some (.request fun j => (under? "textDocument" document? j).map outline)
  | "textDocument/documentLink" =>
    some (.request fun j => (under? "textDocument" document? j).map links)
  | "textDocument/prepareCallHierarchy" | "textDocument/prepareTypeHierarchy" =>
    some (.request fun j => (place? j).map fun (u, p) => prepare u p)
  | "callHierarchy/incomingCalls" => some (.request fun j => (under? "item" callItem? j).map incoming)
  | "callHierarchy/outgoingCalls" => some (.request fun j => (under? "item" callItem? j).map outgoing)
  | "typeHierarchy/supertypes" => some (.request fun j => (under? "item" typeItem? j).map supertypes)
  | "typeHierarchy/subtypes" => some (.request fun j => (under? "item" typeItem? j).map subtypes)
  | "initialized" => some (.notification fun j => (empty? j).map fun _ => ready)
  | "textDocument/didOpen" => some (.notification fun j =>
      (alone? "textDocument" opened? j).map fun (u, v, t) => opened u v t)
  | "textDocument/didChange" => some (.notification fun j =>
      (changed? j).map fun ((u, v), es) => changed u v es)
  | "textDocument/didSave" => some (.notification fun j => (saved? j).map fun u => saved u)
  | "textDocument/didClose" =>
    some (.notification fun j => (alone? "textDocument" document? j).map closed)
  | "workspace/didChangeConfiguration" =>
    some (.notification fun j => (alone? "settings" some j).map fun _ => loadConfiguration)
  | "workspace/didChangeWatchedFiles" =>
    some (.notification fun j => (alone? "changes" (Json.listOf fileEvent?) j).map filesChanged)
  | _ =>
    if Unserved.notifications.contains method then some (.notification fun _ => some (pure ()))
    else (Unserved.table.lookup method).map .unserved

/-- What the server can do, for the editor. -/
def introduction : Json :=
  .object [("capabilities", .object [("callHierarchyProvider", .bool true),
      ("documentLinkProvider", .object [("resolveProvider", .bool false)]),
      ("documentSymbolProvider", .bool true), ("hoverProvider", .bool true),
      ("textDocumentSync", .object [("change", .nat 2), ("openClose", .bool true),
        ("save", .bool true)])]),
    ("serverInfo", .object [("name", .string "Pike Language Server"), ("version", .string "0.1.0")])]

/-- Refuses a request; a notification cannot be refused. -/
def Incoming.refuse (m : Incoming) (r : Refusal) : Answer :=
  if m.wantsAnswer then .refused r else .nothing

/-- Why a message does not fit into a phase that is not the initialized one. -/
def untimely : Phase → Refusal
  | .uninitialized => .notInitialized
  | _ => .invalidRequest

/-- Serves a message. A request told as a notification is passed over, and the other way round it is
refused. -/
def Service.answer (m : Incoming) : Service → Action Answer
  | .request read =>
    if !m.wantsAnswer then return .nothing
    else match m.params.bind read with
      | some act => .result <$> act
      | none => return .refused .invalidParams
  | .unserved form =>
    return m.refuse (if m.params.any form then .unknownMethod else .invalidParams)
  | .notification read =>
    if m.wantsAnswer then return .refused .invalidRequest
    else match m.params.bind read with
      | some act => do
        act
        return .nothing
      | none => return .nothing

/-- The first message of a session; one that fails may be repeated. -/
def begin (m : Incoming) (phase : Phase) : Action Answer :=
  if phase ≠ .uninitialized then return m.refuse .invalidRequest
  else if !m.wantsAnswer then return .nothing
  else match m.params.bind Introduction.roots? with
    | none => return .refused .invalidParams
    | some roots => do
      Task.modify fun s => { s with roots, phase := .initialized }
      return .result introduction

/-- The end of a session. It counts even if it is not told in form. -/
def finish (m : Incoming) (phase : Phase) : Action Answer := do
  if phase ≠ .initialized then return m.refuse (untimely phase)
  Task.modify fun s => { s with phase := .shutDown }
  if !m.wantsAnswer then return .nothing
  if m.params.isSome then return .refused .invalidParams
  onServer Server.shutDown
  return .result .null

def receive (m : Incoming) : Action Answer := do
  let phase ← Task.read (·.phase)
  if phase = .exited then return .gone
  match m.method with
  | "exit" =>
    Task.modify fun s => { s with phase := .exited }
    return .nothing
  | "$/cancelRequest" => return m.refuse .invalidRequest
  | "initialize" => begin m phase
  | "shutdown" => finish m phase
  | method =>
    match service? method with
    | some service =>
      if phase = .initialized then service.answer m else return m.refuse (untimely phase)
    | none =>
      -- what is optional in the protocol may go unheard
      return if "$/".toList.isPrefixOf method.toList then .nothing else m.refuse .unknownMethod

end LanguageServer.Editor
