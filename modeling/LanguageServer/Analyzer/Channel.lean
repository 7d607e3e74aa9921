import LanguageServer.Analyzer.Link
import LanguageServer.Analyzer.Message
import LanguageServer.Table
import LanguageServer.Text.Blank

/-! One connection to one process. Every request that waits has a number, and the first line that
carries the number settles it. -/
namespace LanguageServer.Analyzer

structure Channel where
  link : Link
  pid : Option UInt32
  /-- The requests that wait for an answer. -/
  pending : List RequestId
  /-- Answers that have come and were not collected. -/
  outcomes : Table RequestId (Except Failure Json)
  /-- Given up from this side. -/
  isClosing : Bool
  /-- Takes no more requests. -/
  isDead : Bool
  /-- Whether the end of the process is still to be waited for. -/
  hasChild : Bool
  /-- Someone waits for the end of the process. -/
  isReaping : Bool
  deriving Inhabited

namespace Channel

def connect (link : Link) (pid : Option UInt32) (hasChild : Bool) : Channel :=
  ⟨link, pid, [], .empty, false, false, hasChild, false⟩

def withdraw (c : Channel) (id : RequestId) : Channel := { c with pending := c.pending.filter (· ≠ id) }

/-- Settles a request that waits; any other number changes nothing. -/
def settle (c : Channel) (id : RequestId) (o : Except Failure Json) : Channel :=
  if c.pending.contains id then
    { c.withdraw id with outcomes := c.outcomes.insert id o }
  else c

/-- Settles all requests that wait with one failure, and refuses new ones. -/
def failAll (c : Channel) (f : Failure) : Channel :=
  { c with
    isDead := true
    pending := []
    outcomes := c.pending.foldl (fun t id => t.insert id (.error f)) c.outcomes }

/-- Takes in a line: an answer settles its request, and all else is passed over. -/
def accept (c : Channel) (line : String) : Channel :=
  match Response.ofLine? (Text.trim line) with
  | some r => match r.id with
    | some id => c.settle id r.outcome
    | none => c
  | none => c

def collect (c : Channel) (id : RequestId) : Option (Except Failure Json × Channel) :=
  (c.outcomes.find? id).map fun o => (o, { c with outcomes := c.outcomes.erase id })

end Channel
end LanguageServer.Analyzer
