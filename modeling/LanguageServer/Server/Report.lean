import LanguageServer.Server.Basic

/-! What is told about a server and its parts, as text and as JSON. -/
namespace LanguageServer

/-- A hash as JSON: its digits as text, for it may not fit into a number there. -/
def hashJson (h : UInt64) : Json := .string (toString h.toNat)

def Fingerprint.toJson : Fingerprint → Json
  | .version u v => .object [("uri", u.toJson), ("version", .int v)]
  | .stat u size _ => .object [("size", .nat size), ("uri", u.toJson)]

def Snapshot.toJson (s : Snapshot) : Json :=
  .object [("content_hash", hashJson s.hash), ("fingerprint", s.fingerprint.toJson),
    ("text", .string s.text), ("uri", s.url.toJson)]

def ImportSet.toJson (s : ImportSet) : Json :=
  .object [("content_hash", hashJson s.hash), ("edges", .ofList ImportEdge.toJson s.edges),
    ("resolved", .ofList Url.toJson s.urls)]

/-- A waterfall with its hash as text. -/
def Waterfall.report (w : Waterfall) : Json :=
  .object [("content_hash", hashJson w.hash), ("depth", .nat w.depth),
    ("symbols", .ofList WaterfallSymbol.toJson w.symbols)]

def Analyzer.Status.toJson (s : Status) : Json :=
  let named (n : String) : Json :=
    .object [("running", .bool s.isRunning), ("status", .string n)]
  match s with
  | .notStarted => named "not_started"
  | .starting => named "starting"
  | .idle => named "idle"
  | .busy n => .object [("in_flight", .nat n), ("running", .bool true), ("status", .string "busy")]
  | .crashed => named "crashed"
  | .stopped => named "stopped"

/-- An event; how a process number is told is left open. -/
def Analyzer.Event.toJson (pid : Option UInt32 → Json) : Event → Json
  | .started n => .object [("event", .string "started"), ("pid", pid n)]
  | .crashed code => .object [("event", .string "crashed"), ("exit_code", .ofOption .int code)]
  | .stopped => .object [("event", .string "stopped")]

namespace Server

/-- The state of the client of the process. -/
def clientText (s : Server) : String :=
  "AnalysisBridge \x7b launcher: " ++ s.around.launcher.label ++ ", status: " ++
    s.client.status.label ++ " \x7d"

def text (s : Server) : String :=
  "AnalysisService \x7b bridge: " ++ s.clientText ++ ", analyses: " ++ toString s.analyses.size ++
    ", .. \x7d"

end Server

/-- How many entries of each kind are held, expired ones included. -/
def ImportGraph.text (g : ImportGraph) : String :=
  "ModuleGraphResolver \x7b imports: " ++ toString g.imports.size ++ ", waterfall: " ++
    toString g.waterfalls.size ++ ", circular: " ++ toString g.cycles.size ++ " \x7d"

end LanguageServer
