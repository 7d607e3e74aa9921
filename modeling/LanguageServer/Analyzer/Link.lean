import LanguageServer.Text.Utf8

/-! The two streams between a client and an analysis process, and how the process ended. -/
namespace LanguageServer.Analyzer

structure Link where
  /-- Lines that were written and that the process has not read. -/
  requests : List String
  /-- Whether the process still reads. -/
  isDeaf : Bool
  /-- Bytes that the process has written and that were not read. -/
  output : List UInt8
  /-- Whether the process has closed its output. -/
  isMute : Bool
  /-- Once the process has ended, its exit code if it has one. -/
  exit : Option (Option Int)
  deriving Inhabited

namespace Link

def fresh : Link := ⟨[], false, [], false, none⟩

/-- Writes a line to the process, if it still reads. -/
def write (l : Link) (line : String) : Option Link :=
  if l.isDeaf then none else some { l with requests := l.requests ++ [line] }

/-- The next line for the process. -/
def take (l : Link) : Option (String × Link) :=
  match l.requests with
  | [] => none
  | r :: rest => some (r, { l with requests := rest })

/-- Bytes from the process; a process that has closed its output writes nothing. -/
def say (l : Link) (bytes : List UInt8) : Link :=
  if l.isMute then l else { l with output := l.output ++ bytes }

def deafen (l : Link) : Link := { l with isDeaf := true, requests := [] }

/-- The process ends, or closes both streams. -/
def close (l : Link) (code : Option Int) : Link :=
  { l.deafen with isMute := true, exit := l.exit.or (some code) }

/-- What is read from a process next. -/
inductive Heard where
  | line (text : String)
  /-- The end of the output, or bytes that are no text. -/
  | ended

/-- The text of a line; bytes that are no text end the reading. -/
def hear (bytes : List UInt8) : Heard :=
  match Text.Utf8.text? bytes with
  | some text => .line text
  | none => .ended

/-- Reads the next line; at the end of the output what is left is a line too. -/
def listen (l : Link) : Option (Heard × Link) :=
  match l.output.span (· ≠ 10) with
  | (line, _ :: rest) => some (hear line, { l with output := rest })
  | (line, []) =>
    if l.isMute then
      some (if line.isEmpty then .ended else hear line, { l with output := [] })
    else none

end Link
end LanguageServer.Analyzer
