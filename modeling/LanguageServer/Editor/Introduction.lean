import LanguageServer.Editor.Ability

/-! How an editor introduces itself. Of all that it tells only the roots of the workspace count,
but the rest has to be in form too. -/
namespace LanguageServer.Editor

namespace Introduction

open Form

def editorName : Form := record [need "name" string, may "version" string]

def fields : List Field :=
  [may "processId" natural, may "rootPath" string, may "rootUri" url,
    may "initializationOptions" anything, need "capabilities" Ability.all,
    may "trace" (oneOf ["off", "messages", "verbose"]),
    may "workspaceFolders" (list (readable folder?)), may "clientInfo" editorName,
    may "locale" string]

/-- The folders of the workspace that are directories; if there are none, the root. -/
def roots (rootUri folders : Option Json) : List Path :=
  let named := ((folders.bind (Json.listOf folder?)).getD []).filterMap Url.toFilePath?
  if named.isEmpty then ((rootUri.bind Url.ofJson?).bind Url.toFilePath?).toList else named

/-- Reads an introduction for the roots of the workspace. -/
def roots? (j : Json) : Option (List Path) := do
  if !record fields j then none
  match ← j.wholeFields? (fields.map (·.name)) with
  | [_, _, rootUri, _, _, _, folders, _, _] => some (roots rootUri folders)
  | _ => none

end Introduction
end LanguageServer.Editor
