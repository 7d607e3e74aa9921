import LanguageServer.Editor.Parts

/-! What an editor tells of its abilities. -/
namespace LanguageServer.Editor

open Form

namespace Ability

/-- An ability that may be registered later, and no more of it. -/
def registration : Field := may "dynamicRegistration" flag

def plain : Form := record [registration]

def flags (names : List String) : Form := record (names.map (may · flag))

def refresh : Form := flags ["refreshSupport"]

/-- The properties that may be asked for later. -/
def properties : Form := record [need "properties" (list string)]

/-- The values that an editor knows; it may keep them to itself. -/
def values (f : Form) : Form := record [may "valueSet" (list f)]

/-- The tags that an editor knows: a list, or only whether there are any. -/
def tagSupport : Field := supposed "tagSupport"
  (nullable (either flag (record [need "valueSet" (list integer)])))

def markupKinds (name : String) : Field := may name (list Part.markupKind)

/-! Abilities for the whole workspace. -/

def workspaceEdit : Form := record
  [may "documentChanges" flag,
    may "resourceOperations" (list (oneOf ["create", "rename", "delete"])),
    may "failureHandling" (oneOf ["abort", "transactional", "textOnlyTransactional", "undo"]),
    may "normalizesLineEndings" flag, may "changeAnnotationSupport" (flags ["groupsOnLabel"])]

def workspaceSymbol : Form := record
  [registration, may "symbolKind" (values integer), tagSupport, may "resolveSupport" properties]

def fileOperations : Form := flags ["dynamicRegistration", "didCreate", "willCreate", "didRename",
  "willRename", "didDelete", "willDelete"]

def workspace : Form := record
  [may "applyEdit" flag, may "workspaceEdit" workspaceEdit, may "didChangeConfiguration" plain,
    may "didChangeWatchedFiles" (flags ["dynamicRegistration", "relativePatternSupport"]),
    may "symbol" workspaceSymbol, may "executeCommand" plain, may "workspaceFolders" flag,
    may "configuration" flag, may "semanticTokens" refresh, may "codeLens" refresh,
    may "fileOperations" fileOperations, may "inlineValue" refresh, may "inlayHint" refresh,
    may "diagnostic" refresh]

/-! Abilities for a document. -/

def completionItem : Form := record
  [may "snippetSupport" flag, may "commitCharactersSupport" flag, markupKinds "documentationFormat",
    may "deprecatedSupport" flag, may "preselectSupport" flag, tagSupport,
    may "insertReplaceSupport" flag, may "resolveSupport" properties,
    may "insertTextModeSupport" (record [need "valueSet" (list integer)]),
    may "labelDetailsSupport" flag]

def completion : Form := record
  [registration, may "completionItem" completionItem, may "completionItemKind" (values integer),
    may "contextSupport" flag, may "insertTextMode" integer,
    may "completionList" (record [may "itemDefaults" (list string)])]

def signatureHelp : Form := record
  [registration, may "signatureInformation" (record [markupKinds "documentationFormat",
      may "parameterInformation" (flags ["labelOffsetSupport"]),
      may "activeParameterSupport" flag]),
    may "contextSupport" flag]

def documentSymbol : Form := record
  [registration, may "symbolKind" (values integer), may "hierarchicalDocumentSymbolSupport" flag,
    tagSupport]

def codeAction : Form := record
  [registration, may "codeActionLiteralSupport" (record
      [need "codeActionKind" (record [need "valueSet" (list string)])]),
    may "isPreferredSupport" flag, may "disabledSupport" flag, may "dataSupport" flag,
    may "resolveSupport" properties, may "honorsChangeAnnotations" flag]

def rename : Form := record
  [registration, may "prepareSupport" flag, may "prepareSupportDefaultBehavior" integer,
    may "honorsChangeAnnotations" flag]

def publishDiagnostics : Form := record
  [may "relatedInformation" flag, tagSupport, may "versionSupport" flag,
    may "codeDescriptionSupport" flag, may "dataSupport" flag]

def foldingRange : Form := record
  [registration, may "rangeLimit" natural, may "lineFoldingOnly" flag,
    may "foldingRangeKind" (values (oneOf ["comment", "imports", "region"])),
    may "foldingRange" (flags ["collapsedText"])]

def semanticTokens : Form := record
  [registration, need "requests" (record [may "range" flag,
      may "full" (either flag (openRecord [may "delta" flag]))]),
    need "tokenTypes" (list string), need "tokenModifiers" (list string),
    need "formats" (list string), may "overlappingTokenSupport" flag,
    may "multilineTokenSupport" flag, may "serverCancelSupport" flag,
    may "augmentsSyntaxTokens" flag]

def links : Form := flags ["dynamicRegistration", "linkSupport"]

def document : Form := record
  [may "synchronization" (flags ["dynamicRegistration", "willSave", "willSaveWaitUntil", "didSave"]),
    may "completion" completion,
    may "hover" (record [registration, markupKinds "contentFormat"]),
    may "signatureHelp" signatureHelp, may "references" plain, may "documentHighlight" plain,
    may "documentSymbol" documentSymbol, may "formatting" plain, may "rangeFormatting" plain,
    may "onTypeFormatting" plain, may "declaration" links, may "definition" links,
    may "typeDefinition" links, may "implementation" links, may "codeAction" codeAction,
    may "codeLens" plain, may "documentLink" (flags ["dynamicRegistration", "tooltipSupport"]),
    may "colorProvider" plain, may "rename" rename, may "publishDiagnostics" publishDiagnostics,
    may "foldingRange" foldingRange, may "selectionRange" plain, may "linkedEditingRange" plain,
    may "callHierarchy" plain, may "semanticTokens" semanticTokens, may "moniker" plain,
    may "typeHierarchy" plain, may "inlineValue" plain,
    may "inlayHint" (record [registration, may "resolveSupport" properties]),
    may "diagnostic" (flags ["dynamicRegistration", "relatedDocumentSupport"])]

/-! Other abilities. -/

def window : Form := record
  [may "workDoneProgress" flag,
    may "showMessage" (record [may "messageActionItem" (flags ["additionalPropertiesSupport"])]),
    may "showDocument" (record [need "support" flag])]

def general : Form := record
  [may "regularExpressions" (record [need "engine" string, may "version" string]),
    may "markdown" (record [need "parser" string, may "version" string,
      may "allowedTags" (list string)]),
    may "staleRequestSupport" (record [need "cancel" flag,
      need "retryOnContentModified" (list string)]),
    may "positionEncodings" (list string)]

/-- All that an editor is able to do. -/
def all : Form := record
  [may "workspace" workspace, may "textDocument" document, may "window" window,
    may "general" general, may "experimental" anything]

end Ability
end LanguageServer.Editor
