import LanguageServer.Analyzer.Channel
import LanguageServer.Task.Basic

/-! The client of the analysis process: at most one process at a time, and requests to it. A process
that ends is not started again from here. -/
namespace LanguageServer.Analyzer

inductive Phase where
  | notStarted
  | starting
  | running
  | crashed (exitCode : Option Int)
  | stopped
  deriving DecidableEq, Inhabited

/-- The state of the client as it is told to others. -/
inductive Status where
  | notStarted
  | starting
  | idle
  | busy (waiting : Nat)
  | crashed
  | stopped
  deriving DecidableEq, Inhabited

namespace Status

def isRunning : Status → Bool
  | .idle => true
  | .busy _ => true
  | _ => false

def label : Status → String
  | .notStarted => "NotStarted"
  | .starting => "Starting"
  | .idle => "Idle"
  | .busy n => "Busy \x7b in_flight: " ++ toString n ++ " \x7d"
  | .crashed => "Crashed"
  | .stopped => "Stopped"

end Status

inductive Event where
  | started (pid : Option UInt32)
  | crashed (exitCode : Option Int)
  | stopped
  deriving DecidableEq, Inhabited

abbrev ChannelId := Nat

structure Client where
  phase : Phase
  /-- The channel that takes requests. -/
  active : Option ChannelId
  /-- The channel of the latest start. -/
  current : Option ChannelId
  /-- The task that reads from the current channel. -/
  reader : Option TaskId
  /-- Someone starts or stops the process. -/
  isChanging : Bool
  channels : Table ChannelId Channel
  nextRequest : RequestId
  /-- What has happened and was not taken note of. -/
  events : List Event
  deriving Inhabited

namespace Client

def new : Client := ⟨.notStarted, none, none, none, false, .empty, 1, []⟩

def channel (c : Client) (id : ChannelId) : Channel := (c.channels.find? id).getD default

def updateChannel (id : ChannelId) (f : Channel → Channel) (c : Client) : Client :=
  { c with channels := c.channels.insert id (f (c.channel id)) }

/-- Changes a channel if something is there for it to give. -/
def fromChannel {α : Type} (id : ChannelId) (f : Channel → Option (α × Channel)) (c : Client) :
    Option (α × Client) :=
  (f (c.channel id)).map fun (a, ch) => (a, c.updateChannel id fun _ => ch)

def status (c : Client) : Status :=
  match c.phase with
  | .notStarted => .notStarted
  | .starting => .starting
  | .crashed _ => .crashed
  | .stopped => .stopped
  | .running =>
    match (c.active.map fun id => (c.channel id).pending.length).getD 0 with
    | 0 => .idle
    | n => .busy n

def pid? (c : Client) : Option UInt32 := c.active.bind fun id => (c.channel id).pid

def emit (e : Event) (c : Client) : Client := { c with events := c.events ++ [e] }

/-- The channel for a new request, or why there is none. -/
def target (c : Client) : Except Failure ChannelId :=
  match c.active with
  | some id => .ok id
  | none => .error (match c.phase with
    | .crashed code => .crashed code
    | .stopped => .terminated
    | _ => .notStarted)

/-- Why a channel that takes no requests takes none. -/
def loss (c : Client) (id : ChannelId) : Failure :=
  if (c.channel id).isClosing then .terminated
  else match c.phase with
    | .crashed code => .crashed code
    | _ => .crashed none

/-- Writes a request to a channel, and its number waits there; or takes it back. -/
def post (c : Client) (id : ChannelId) (op : Operation) (params : Json) :
    Except Failure RequestId × Client :=
  let n := c.nextRequest
  let c := { c with nextRequest := n + 1 }
  let ch := c.channel id
  if ch.isDead then (.error (c.loss id), c)
  else match ch.link.write (Request.line ⟨n, op.method, params⟩) with
    | none => (.error (c.loss id), c)
    | some link => (.ok n, c.updateChannel id fun ch => { ch with link, pending := ch.pending ++ [n] })

/-- The process of a channel is gone: if it was the one that takes requests, that is a crash. -/
def disconnect (c : Client) (id : ChannelId) (code : Option Int) : Client :=
  let wasActive := c.active = some id
  let c := if wasActive then { c with active := none, phase := .crashed code } else c
  let c := c.updateChannel id (·.failAll (.crashed code))
  if wasActive then c.emit (.crashed code) else c

/-- Gives a channel up from this side. -/
def abandon (id : ChannelId) (c : Client) : Client :=
  c.updateChannel id fun ch => { ch with isClosing := true }

/-- A number above those of all channels. -/
def freshId (c : Client) : ChannelId := c.channels.keys.foldr (fun id n => max (id + 1) n) 0

/-- A new channel, the current one from now on. -/
def connect (c : Client) (ch : Channel) : ChannelId × Client :=
  let id := c.freshId
  (id, { c with channels := c.channels.insert id ch, current := some id })

end Client
end LanguageServer.Analyzer
