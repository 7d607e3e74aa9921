import LanguageServer.Editor.Parts

/-! Requests of the protocol that this server does not serve. Their parameters are looked at before
the request is turned down. -/
namespace LanguageServer.Editor.Unserved

open Form

def work : Field := may "workDoneToken" token
def parts : Field := may "partialResultToken" token
def textDocument : Field := need "textDocument" document
def place : List Field := [textDocument, need "position" position, work]

/-- How to lay out a text; what an editor adds is a flag, an integer or a text. -/
def layout : Form := openRecordWith
  [need "tabSize" natural, need "insertSpaces" flag, may "trimTrailingWhitespace" flag,
    may "insertFinalNewline" flag, may "trimFinalNewlines" flag]
  (either flag (either integer string))

def color : Form := record (["red", "green", "blue", "alpha"].map (need · number))

def files (names : List String) : Form :=
  record [need "files" (list (record (names.map (need · string))))]

def trigger : List Field := [need "triggerKind" integer, may "triggerCharacter" string]

def actionContext : Form := record [need "diagnostics" (list Part.diagnostic),
  may "only" (list string), may "triggerKind" integer]

def helpContext : Form := record [need "triggerKind" integer, may "triggerCharacter" string,
  need "isRetrigger" flag, may "activeSignatureHelp" Part.signatureHelp]

/-- What the parameters of each request have to be. -/
def table : List (String × Form) :=
  (["textDocument/declaration", "textDocument/definition", "textDocument/typeDefinition",
    "textDocument/implementation", "textDocument/documentHighlight", "textDocument/moniker"].map
      (·, openRecord (parts :: place))) ++
  (["textDocument/codeLens", "textDocument/foldingRange", "textDocument/semanticTokens/full",
    "textDocument/documentColor"].map (·, openRecord [textDocument, work, parts])) ++
  [("textDocument/willSaveWaitUntil", record [textDocument, need "reason" integer]),
    ("textDocument/references", openRecord (parts :: need "context" (record
      [need "includeDeclaration" flag]) :: place)),
    ("documentLink/resolve", record [need "range" range, may "target" url, may "tooltip" string,
      may "data" anything]),
    ("codeLens/resolve", record [need "range" range, may "command" Part.command, may "data" anything]),
    ("textDocument/selectionRange", openRecord [textDocument, need "positions" (list position),
      work, parts]),
    ("textDocument/semanticTokens/full/delta", openRecord [textDocument,
      need "previousResultId" string, work, parts]),
    ("textDocument/semanticTokens/range", openRecord [textDocument, need "range" range, work, parts]),
    ("textDocument/inlineValue", openRecord [textDocument, need "range" range, need "context" (record
      [need "frameId" integer, need "stoppedLocation" range]), work]),
    ("textDocument/inlayHint", openRecord [textDocument, need "range" range, work]),
    ("inlayHint/resolve", Part.inlayHint),
    ("textDocument/completion", openRecord (parts :: may "context" (record trigger) :: place)),
    ("completionItem/resolve", Part.completionItem),
    ("textDocument/diagnostic", openRecord [textDocument, may "identifier" string,
      may "previousResultId" string, work, parts]),
    ("workspace/diagnostic", openRecord [may "identifier" string, need "previousResultIds"
      (list (record [need "uri" url, need "value" string])), work, parts]),
    ("textDocument/signatureHelp", openRecord (may "context" helpContext :: place)),
    ("textDocument/codeAction", openRecord [textDocument, need "range" range,
      need "context" actionContext, work, parts]),
    ("codeAction/resolve", Part.codeAction),
    ("textDocument/colorPresentation", openRecord [textDocument, need "color" color,
      need "range" range, work, parts]),
    ("textDocument/formatting", openRecord [textDocument, need "options" layout, work]),
    ("textDocument/rangeFormatting", openRecord [textDocument, need "range" range,
      need "options" layout, work]),
    ("textDocument/onTypeFormatting", openRecord [textDocument, need "position" position,
      need "ch" string, need "options" layout]),
    ("textDocument/rename", openRecord (need "newName" string :: place)),
    ("textDocument/prepareRename", record [textDocument, need "position" position]),
    ("textDocument/linkedEditingRange", openRecord place),
    ("workspace/symbol", openRecord [need "query" string, work, parts]),
    ("workspaceSymbol/resolve", Part.workspaceSymbol),
    ("workspace/executeCommand", openRecord [need "command" string,
      supposed "arguments" (list anything), work]),
    ("workspace/willCreateFiles", files ["uri"]),
    ("workspace/willRenameFiles", files ["oldUri", "newUri"]),
    ("workspace/willDeleteFiles", files ["uri"])]

/-- The notifications that are heard without effect. -/
def notifications : List String :=
  ["textDocument/willSave", "workspace/didChangeWorkspaceFolders", "workspace/didCreateFiles",
    "workspace/didRenameFiles", "workspace/didDeleteFiles"]

end LanguageServer.Editor.Unserved
