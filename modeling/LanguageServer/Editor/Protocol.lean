import LanguageServer.Document.Edit
import LanguageServer.Hierarchy.Call
import LanguageServer.Import.Edge

/-! What is told to an editor and by it, in the editor's own JSON; absent fields are left out. -/
namespace LanguageServer.Editor

/-- Who diagnostics come from. -/
def source : String := "pike"

/-- A member that is left out when there is nothing under it. -/
def field (name : String) (j : Option Json) : List (String × Json) := (j.map (name, ·)).toList

def severityNumber : Severity → Nat
  | .error => 1
  | .warning => 2
  | .information => 3
  | .hint => 4

def diagnostic (d : Diagnostic) : Json :=
  .object [("message", .string d.message), ("range", d.range.toJson),
    ("severity", .nat (severityNumber d.severity)), ("source", .string source)]

/-- The diagnostic that stands for all when there is no analysis. -/
def unavailable (reason : String) : Diagnostic :=
  ⟨default, .warning, "Pike analysis unavailable: " ++ reason⟩

/-- The numbers of the protocol for kinds of symbols. -/
def symbolNumber : Symbol → Nat
  | .scope _ (.function _ _) _ => 12
  | .scope _ (.method _) _ => 6
  | .scope _ .classScope _ => 5
  | .scope _ .moduleScope _ => 2
  | .scope _ .enumScope _ => 10
  | .leaf _ (.variable _) => 13
  | .leaf _ (.constant _) => 14
  | .leaf _ (.typedef _) => 26
  | .leaf _ (.inheritance _) => 3

def symbolDetail : Symbol → Option String
  | .scope _ (.function signature _) _ => signature
  | .scope _ (.method signature) _ => signature
  | .leaf _ (.variable t) => t
  | .leaf _ (.constant t) => t
  | .leaf _ (.typedef t) => t
  | .leaf _ (.inheritance target) => some ("inherit " ++ target)
  | _ => none

mutual

/-- A symbol of the outline with the symbols inside it. -/
def documentSymbol : Symbol → Json
  | .scope h kind children =>
    let inner := documentSymbols children
    let s : Symbol := .scope h kind children
    .object ((if inner.isEmpty then [] else [("children", .array inner)]) ++
      field "detail" ((symbolDetail s).map .string) ++
      [("kind", .nat (symbolNumber s)), ("name", .string h.name), ("range", h.range.toJson),
        ("selectionRange", h.selection.toJson)])
  | .leaf h kind =>
    let s : Symbol := .leaf h kind
    .object (field "detail" ((symbolDetail s).map .string) ++
      [("kind", .nat (symbolNumber s)), ("name", .string h.name), ("range", h.range.toJson),
        ("selectionRange", h.selection.toJson)])

def documentSymbols : List Symbol → List Json
  | [] => []
  | s :: rest => documentSymbol s :: documentSymbols rest

end

/-- A link from an import to the file it resolved to. -/
def documentLink? (e : ImportEdge) : Option Json := do
  let range ← e.range
  let target ← e.url?
  return .object [("range", range.toJson), ("target", target.toJson),
    ("tooltip", .string (e.kind.label ++ " " ++ e.target))]

/-- An edit as the editor tells it; the length of the range may be told too and counts for nothing. -/
def edit? (j : Json) : Option Edit := do
  match ← j.wholeFields? ["range", "rangeLength", "text"] with
  | [range, length, text] =>
    let range ← Json.optional Range.ofJson? range
    let _ ← Json.optional (Json.natOfBits? 32) length
    some ⟨range, ← Json.required Json.string? text⟩
  | _ => none

def itemNumber : ItemKind → Nat
  | .function => 12
  | .method => 6
  | .classType => 5
  | .moduleType => 2
  | .program => 1

/-- The kind that a number stands for: a function unless it says otherwise. -/
def itemOfNumber (n : Int) : ItemKind :=
  if n = 6 then .method
  else if n = 5 then .classType
  else if n = 2 then .moduleType
  else if n = 1 then .program
  else .function

/-- An item; its kind is repeated in the data that the editor gives back. -/
def item (i : HierarchyItem) : Json :=
  .object (("data", .object [("kind", .string (i.kind.label))]) ::
    field "detail" (i.detail.map .string) ++
    [("kind", .nat (itemNumber i.kind)), ("name", .string i.name), ("range", i.range.toJson),
      ("selectionRange", i.selection.toJson), ("uri", i.url.toJson)])

/-- Reads an item. The kind in the data counts before the number. -/
def itemWith? (tags? : Json → Option Unit) (j : Json) : Option HierarchyItem := do
  match ← j.wholeFields? ["name", "kind", "tags", "detail", "uri", "range", "selectionRange", "data"] with
  | [name, kind, tags, detail, url, range, selection, data] =>
    let name ← Json.required Json.string? name
    let number ← Json.required (Json.intOfBits? 32) kind
    let _ ← Json.optional tags? tags
    let detail ← Json.optional Json.string? detail
    let url ← Json.required Url.ofJson? url
    let range ← Json.required Range.ofJson? range
    let selection ← Json.required Range.ofJson? selection
    let told := data.bind fun d => (d.member? "kind").bind fun k => k.string?.bind ItemKind.ofLabel?
    some ⟨name, told.getD (itemOfNumber number), url, range, selection, detail⟩
  | _ => none

def tag? (j : Json) : Option Unit := (j.intOfBits? 32).map fun _ => ()

/-- An item of a call hierarchy: its tags are a list. -/
def callItem? (j : Json) : Option HierarchyItem :=
  itemWith? (fun j => (Json.listOf tag? j).map fun _ => ()) j

/-- An item of a type hierarchy: it has one tag at most. -/
def typeItem? (j : Json) : Option HierarchyItem := itemWith? tag? j

def incomingCall (c : Call) : Json :=
  .object [("from", item c.item), ("fromRanges", .ofList Range.toJson c.sites)]

def outgoingCall (c : Call) : Json :=
  .object [("fromRanges", .ofList Range.toJson c.sites), ("to", item c.item)]

end LanguageServer.Editor
