import LanguageServer.Configuration
import LanguageServer.Editor.Protocol

/-! What the messages of an editor carry. -/
namespace LanguageServer.Editor

/-- The name of a piece of work under which its progress is told. -/
def token? (j : Json) : Option Unit :=
  match j with
  | .string _ => some ()
  | j => (j.intOfBits? 32).map fun _ => ()

def optionalToken? (field : Option Json) : Option Unit :=
  (Json.optional token? field).map fun _ => ()

def document? (j : Json) : Option Url := do
  match ← j.wholeFields? ["uri"] with
  | [uri] => Json.required Url.ofJson? uri
  | _ => none

def place? (j : Json) : Option (Url × Position) := do
  match ← j.openFields? ["textDocument", "position", "workDoneToken"] with
  | [document, position, work] =>
    let u ← Json.required document? document
    let p ← Json.required Position.ofJson? position
    let _ ← optionalToken? work
    some (u, p)
  | _ => none

/-- Something under a name, with tokens for the work and for its parts. -/
def under? {α : Type} (name : String) (read : Json → Option α) (j : Json) : Option α := do
  match ← j.openFields? [name, "workDoneToken", "partialResultToken"] with
  | [thing, work, parts] =>
    let a ← Json.required read thing
    let _ ← optionalToken? work
    let _ ← optionalToken? parts
    some a
  | _ => none

def alone? {α : Type} (name : String) (read : Json → Option α) (j : Json) : Option α := do
  match ← j.wholeFields? [name] with
  | [thing] => Json.required read thing
  | _ => none

/-- An opened document: its URL, its version and its text. -/
def opened? (j : Json) : Option (Url × Int × String) := do
  match ← j.wholeFields? ["uri", "languageId", "version", "text"] with
  | [uri, language, version, text] =>
    let u ← Json.required Url.ofJson? uri
    let _ ← Json.required Json.string? language
    let v ← Json.required (Json.intOfBits? 32) version
    some (u, v, ← Json.required Json.string? text)
  | _ => none

def versioned? (j : Json) : Option (Url × Int) := do
  match ← j.wholeFields? ["uri", "version"] with
  | [uri, version] =>
    some (← Json.required Url.ofJson? uri, ← Json.required (Json.intOfBits? 32) version)
  | _ => none

def changed? (j : Json) : Option ((Url × Int) × List Edit) := do
  match ← j.wholeFields? ["textDocument", "contentChanges"] with
  | [document, changes] =>
    some (← Json.required versioned? document, ← Json.required (Json.listOf edit?) changes)
  | _ => none

/-- A saved document; its text may be told and counts for nothing. -/
def saved? (j : Json) : Option Url := do
  match ← j.wholeFields? ["textDocument", "text"] with
  | [document, text] =>
    let u ← Json.required document? document
    let _ ← Json.optional Json.string? text
    some u
  | _ => none

/-- A change of a file; what kind of change it is counts for nothing. -/
def fileEvent? (j : Json) : Option Url := do
  match ← j.wholeFields? ["uri", "type"] with
  | [uri, kind] =>
    let u ← Json.required Url.ofJson? uri
    let _ ← Json.required (Json.intOfBits? 32) kind
    some u
  | _ => none

def folder? (j : Json) : Option Url := do
  match ← j.wholeFields? ["uri", "name"] with
  | [uri, name] =>
    let u ← Json.required Url.ofJson? uri
    let _ ← Json.required Json.string? name
    some u
  | _ => none

end LanguageServer.Editor
