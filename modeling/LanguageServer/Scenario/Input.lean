import LanguageServer.Failure
import LanguageServer.Url.Codec

/-! The fields of a request to a scenario, and what may be wrong with them. -/
namespace LanguageServer.Scenario

/-- What is wrong with a request. -/
inductive Fault where
  /-- A field is missing or holds a value of another type. -/
  | field (name : String)
  | url (text : String)
  /-- A value is not one of the type it is to be read as. -/
  | undecoded
  | item (name : String)
  | file (path : String)
  deriving DecidableEq, Inhabited

def Fault.toJson : Fault → Json
  | .field name => told "BadInput" name
  | .url text => told "BadUrl" text
  | .undecoded => .object [("error", .string "Decode")]
  | .item name => told "NoItem" name
  | .file path => told "Io" path
where
  told (kind message : String) : Json :=
    .object [("error", .string kind), ("message", .string message)]

abbrev Read := Except Fault

/-- What a request comes to. -/
def Read.settle : Read Json → Json
  | .ok j => j
  | .error f => f.toJson

variable {α : Type}

def need (name : String) (j : Json) : Read Json :=
  match j.member? name with
  | some v => .ok v
  | none => .error (.field name)

def field (read : Json → Option α) (name : String) (j : Json) : Read α :=
  match (j.member? name).bind read with
  | some a => .ok a
  | none => .error (.field name)

/-- A field that may be absent or hold anything else. -/
def loose? (read : Json → Option α) (name : String) (j : Json) : Option α :=
  (j.member? name).bind read

def text (name : String) (j : Json) : Read String := field Json.string? name j
def items (name : String) (j : Json) : Read (List Json) := field Json.array? name j
def count (name : String) (j : Json) : Read Nat := field (Json.natOfBits? 64) name j
def path (name : String) (j : Json) : Read Path := field Path.ofJson? name j

def itemsOr (name : String) (j : Json) : List Json := (loose? Json.array? name j).getD []
def countOr (default : Nat) (name : String) (j : Json) : Nat :=
  (loose? (Json.natOfBits? 64) name j).getD default
def textOr (default name : String) (j : Json) : String := (loose? Json.string? name j).getD default
def flag (name : String) (j : Json) : Bool := (loose? Json.bool? name j).getD false

def decoded (read : Json → Option α) (j : Json) : Read α :=
  match read j with
  | some a => .ok a
  | none => .error .undecoded

def decode (read : Json → Option α) (name : String) (j : Json) : Read α := do
  decoded read (← need name j)

def urlOf (s : String) : Read Url :=
  match Url.parse? s with
  | some u => .ok u
  | none => .error (.url s)

def url (name : String) (j : Json) : Read Url := do urlOf (← text name j)

def texts (name : String) (j : Json) : Read (List String) := field (Json.listOf Json.string?) name j
def paths (name : String) (j : Json) : Read (List Path) := field (Json.listOf Path.ofJson?) name j
def urls (name : String) (j : Json) : Read (List Url) := do (← texts name j).mapM urlOf

def pathsOr (name : String) (j : Json) : List Path := (itemsOr name j).filterMap Path.ofJson?

/-- A failure by its name, with its particulars beside it; an exit code has 32 bits. -/
def failure (j : Json) : Read Failure := do
  let message := textOr "" "message" j
  let int? (name : String) : Option Int := loose? (Json.intOfBits? 64) name j
  match ← text "error" j with
  | "ProcessUnavailable" => return .unavailable message
  | "NotStarted" => return .notStarted
  | "ProcessCrashed" => return .crashed ((int? "exit_code").map (Int.bmod · (Nat.pow 2 32)))
  | "ProcessTerminated" => return .terminated
  | "RequestTimeout" => return .timedOut (textOr "" "method" j) ⟨countOr 0 "nanos" j⟩
  | "RequestFailed" => return .rejected ((int? "code").getD 0) message
  | "Protocol" => return .malformed message
  | "Internal" => return .internal message
  | _ => .error (.field "error")

end LanguageServer.Scenario
