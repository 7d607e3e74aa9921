import LanguageServer.Duration
import LanguageServer.Json.Basic

/-! Why the analysis process gave no answer. A name that is found nowhere is no failure. -/
namespace LanguageServer

inductive Failure where
  /-- The runtime was not found, or the process ended before it answered its first request. -/
  | unavailable (reason : String)
  | notStarted
  | crashed (exitCode : Option Int)
  | terminated
  | timedOut (method : String) (limit : Duration)
  /-- The process answered with an error of its own. -/
  | rejected (code : Int) (message : String)
  | malformed (detail : String)
  | internal (detail : String)
  deriving DecidableEq, Inhabited

namespace Failure

/-- An exit code, or that there is none. -/
def exitText : Option Int → String
  | none => "None"
  | some n => "Some(" ++ toString n ++ ")"

def message : Failure → String
  | .unavailable reason => "analysis process unavailable: " ++ reason
  | .notStarted => "analysis process has not been started"
  | .crashed code => "analysis process crashed (exit code " ++ exitText code ++ ")"
  | .terminated => "analysis process was terminated"
  | .timedOut method limit => "request '" ++ method ++ "' timed out after " ++ limit.text
  | .rejected code message => "request failed (" ++ toString code ++ "): " ++ message
  | .malformed detail => "malformed message from analysis process: " ++ detail
  | .internal detail => "internal error: " ++ detail

/-- Whether the process has to be started again. -/
def needsRestart : Failure → Bool
  | .unavailable _ => true
  | .notStarted => true
  | .crashed _ => true
  | .terminated => true
  | _ => false

/-- Whether the same request may succeed later without a restart. -/
def isRetryable : Failure → Bool
  | .timedOut _ _ => true
  | _ => false

def name : Failure → String
  | .unavailable _ => "ProcessUnavailable"
  | .notStarted => "NotStarted"
  | .crashed _ => "ProcessCrashed"
  | .terminated => "ProcessTerminated"
  | .timedOut _ _ => "RequestTimeout"
  | .rejected _ _ => "RequestFailed"
  | .malformed _ => "Protocol"
  | .internal _ => "Internal"

def toJson (f : Failure) : Json :=
  .object [("error", .string f.name), ("message", .string f.message)]

end Failure
end LanguageServer
