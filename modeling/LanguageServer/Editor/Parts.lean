import LanguageServer.Editor.Form

/-! The parts that messages of an editor share: places, edits, commands and texts to be shown. -/
namespace LanguageServer.Editor

open Form

namespace Part

def isUrl (text : String) : Bool := (Url.parse? text).isSome

def location : Form := record [need "uri" url, need "range" range]

def textEdit : Form := record [need "range" range, need "newText" string]

def command : Form :=
  record [need "title" string, need "command" string, may "arguments" (list anything)]

def markupKind : Form := oneOf ["plaintext", "markdown"]

def markup : Form := record [need "kind" markupKind, need "value" string]

/-- A text to be shown, plain or marked up. -/
def shownText : Form := either string markup

def diagnostic : Form := record
  [need "range" range, may "severity" integer, may "code" (either integer string),
    may "codeDescription" (record [need "href" url]), may "source" string, need "message" string,
    may "relatedInformation" (list (record [need "location" location, need "message" string])),
    may "tags" (list integer), may "data" anything]

/-! Edits of a workspace. -/

def annotation : Field := may "annotationId" string

def documentEdit : Form := record
  [need "textDocument" (record [need "uri" url, may "version" integer]),
    need "edits" (list textEdit)]

def fileOperation : Form :=
  let replacing := may "options" (record [may "overwrite" flag, may "ignoreIfExists" flag])
  tagged "kind"
    [("create", [need "uri" url, replacing, annotation]),
      ("rename", [need "oldUri" url, need "newUri" url, replacing, annotation]),
      ("delete", [need "uri" url, may "options" (record
        [may "recursive" flag, may "ignoreIfNotExists" flag, annotation])])]

def changeAnnotation : Form := record
  [need "label" string, may "needsConfirmation" flag, may "description" string]

def workspaceEdit : Form := record
  [may "changes" (map isUrl (list textEdit)),
    may "documentChanges" (list (either documentEdit fileOperation)),
    may "changeAnnotations" (map (fun _ => true) changeAnnotation)]

/-! Help on a call. -/

def parameter : Form := record
  [need "label" (either string (pair natural natural)), may "documentation" shownText]

def signature : Form := record
  [need "label" string, may "documentation" shownText, may "parameters" (list parameter),
    may "activeParameter" natural]

def signatureHelp : Form := record
  [need "signatures" (list signature), may "activeSignature" natural, may "activeParameter" natural]

/-! What is shown in a text, and what a text may be completed to. -/

def inlayPart : Form := record
  [need "value" string, may "tooltip" shownText, may "location" location, may "command" command]

def inlayHint : Form := record
  [need "position" position, need "label" (either string (list inlayPart)), may "kind" integer,
    may "textEdits" (list textEdit), may "tooltip" shownText, may "paddingLeft" flag,
    may "paddingRight" flag, may "data" anything]

def completionItem : Form := record
  [need "label" string, may "labelDetails" (record [may "detail" string, may "description" string]),
    may "kind" integer, may "detail" string, may "documentation" shownText, may "deprecated" flag,
    may "preselect" flag, may "sortText" string, may "filterText" string, may "insertText" string,
    may "insertTextFormat" integer, may "insertTextMode" integer,
    may "textEdit" (either textEdit
      (record [need "newText" string, need "insert" range, need "replace" range])),
    may "additionalTextEdits" (list textEdit), may "command" command,
    may "commitCharacters" (list string), may "data" anything, may "tags" (list integer)]

def codeAction : Form := record
  [need "title" string, may "kind" string, may "diagnostics" (list diagnostic),
    may "edit" workspaceEdit, may "command" command, may "isPreferred" flag,
    may "disabled" (record [need "reason" string]), may "data" anything]

def workspaceSymbol : Form := record
  [need "name" string, need "kind" integer, may "tags" (list integer), may "containerName" string,
    need "location" (either location (record [need "uri" url])), may "data" anything]

end Part
end LanguageServer.Editor
