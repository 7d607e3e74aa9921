import LanguageServer.Analyzer.Message
import LanguageServer.Text.Hex

/-! Rules by which a scripted analysis process answers: the first rule that matches a request says
what is written, when, and whether that is the last thing it does. -/
namespace LanguageServer.Scenario

open Analyzer

inductive Reply where
  | lines (texts : List String)
  | bytes (raw : List UInt8)
  | error (error : Json)
  | result (result : Json)
  /-- The value of an environment variable, as a symbol. -/
  | variable (name : String)
  | silence
  deriving Inhabited

structure Rule where
  /-- The method, and what parameters have to be. -/
  method : Option Json
  params : List (String × Json)
  /-- How often the rule may still be used. -/
  uses : Option Nat
  delay : Duration
  reply : Reply
  /-- A variable of its environment, which a program tells in place of the reply. -/
  tells : Option String
  /-- Whether the process ends after the reply, and its code. -/
  exit : Option (Option Int)
  /-- Whether the process stops reading before the reply. -/
  isDeaf : Bool
  deriving Inhabited

namespace Rule

def paramNames : List String := ["filename", "source", "path", "target", "current_file", "kind"]

def replyOf (j : Json) : Reply :=
  match j.member? "lines", j.member? "hex", j.member? "error", j.member? "result" with
  | some (.array lines), _, _, _ => .lines (lines.filterMap Json.string?)
  | _, some (.string hex), _, _ => .bytes (Text.Hex.decode hex.toList)
  | _, _, some e, _ => .error e
  | _, _, _, some r => .result r
  | _, _, _, _ => .silence

/-- A process whose rule says `exit` ends, with the code that is said there if it is one. -/
def exitOf (j : Json) : Option (Option Int) := (j.member? "exit").map Json.int?

def ofJson (j : Json) : Rule where
  method := j.member? "method"
  params := paramNames.filterMap fun n => (j.member? n).map (n, ·)
  uses := (j.member? "times").bind (Json.natOfBits? 64)
  delay := .ofMillis (((j.member? "delay").bind (Json.natOfBits? 64)).getD 0)
  reply := replyOf j
  tells := (j.member? "env").bind Json.string?
  exit := exitOf j
  isDeaf := ((j.member? "deaf").bind Json.bool?).getD false

/-- The rule as a program follows it: the program may tell of its environment, it reads on in any
case, and it ends with a code of eight bits. -/
def ofProgram (r : Rule) : Rule :=
  { r with
    reply := (r.tells.map .variable).getD r.reply
    exit := r.exit.map fun code => some (code.getD 0 % 256)
    isDeaf := false }

/-- Whether a rule is for a request and not used up. -/
def isMatch (q : Request) (r : Rule) : Bool :=
  r.uses ≠ some 0 && r.method.all (· == .string q.method) &&
    r.params.all fun p => (q.params.member? p.1).any (· == p.2)

/-- What is written when no rule matches: an empty result. -/
def otherwise : Rule := ⟨none, [], none, ⟨0⟩, .result (.object []), none, none, false⟩

/-- The rule for a request, and the rules after its use. -/
def choose (q : Request) : List Rule → Rule × List Rule
  | [] => (otherwise, [])
  | r :: rest =>
    if r.isMatch q then (r, { r with uses := r.uses.map (· - 1) } :: rest)
    else
      let (chosen, rest) := choose q rest
      (chosen, r :: rest)

end Rule

/-- Puts the number of a request where a line asks for it. -/
def fillIn (id : String) (line : String) : String := line.replace "\x7bid\x7d" id

/-- The bytes that a reply to a request writes. -/
def Reply.written (environment : List (String × String)) (q : Request) : Reply → List UInt8
  | .lines texts => texts.flatMap fun t =>
      Text.Utf8.encode (fillIn (toString q.id.toNat) t) ++ [10]
  | .bytes raw => raw
  | .error e => line [("error", e), ("id", .nat q.id.toNat)]
  | .result r => line [("id", .nat q.id.toNat), ("result", r)]
  | .variable name => line [("id", .nat q.id.toNat), ("result", .object [("symbol", .object
      [("kind", .string "env"), ("path", .ofOption .string (environment.lookup name))])])]
  | .silence => []
where
  line (members : List (String × Json)) : List UInt8 :=
    Text.Utf8.encode (Json.object members).compact ++ [10]

end LanguageServer.Scenario
