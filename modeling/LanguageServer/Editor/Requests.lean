import LanguageServer.Editor.Session
import LanguageServer.Editor.Protocol
import LanguageServer.Server.Hierarchies

/-! What an editor asks about documents and hierarchies. Where the analysis fails there is no
answer but null. -/
namespace LanguageServer.Editor

/-- What is shown of a symbol: its signature if it has one, else its kind and its name. -/
def hoverText : Symbol → String
  | .scope _ (.function (some signature) _) _ => signature
  | .scope _ (.method (some signature)) _ => signature
  | s => s.label ++ " " ++ s.name

/-- The innermost symbol whose name is at a position. -/
def hoverIn (a : Analysis) (p : Position) : Json :=
  match a.innermost? p fun s => s.selection.contains p with
  | none => .null
  | some s => .object [("contents", .object [("kind", .string "markdown"),
      ("value", .string ("```pike\n" ++ hoverText s ++ "\n```"))]), ("range", s.selection.toJson)]

/-- What a question comes to; null for a failure, and where there is no document. -/
def orNull {α : Type} (encode : α → Json) : Except Failure (Option α) → Json
  | .ok (some a) => encode a
  | _ => .null

def hover (u : Url) (p : Position) : Action Json :=
  orNull (hoverIn · p) <$> onServer (Server.analyze u)

/-- The symbols of a document; null if there are none. -/
def outline (u : Url) : Action Json := do
  return orNull (fun a => match documentSymbols a.symbols with
    | [] => .null
    | symbols => .array symbols) (← onServer (Server.analyze u))

/-- The links from the imports of a document. -/
def links (u : Url) : Action Json :=
  orNull (fun (s : ImportSet) => .array (s.edges.filterMap documentLink?)) <$>
    onServer (Server.imports u)

/-- The item at a position, in a list of its own. -/
def prepare (u : Url) (p : Position) : Action Json :=
  orNull (fun i => .array [item i]) <$> onServer (Server.prepare u p)

def outgoing (i : HierarchyItem) : Action Json :=
  Json.ofList outgoingCall <$> onServer (Server.outgoing i)

def incoming (i : HierarchyItem) : Action Json :=
  Json.ofList incomingCall <$> onServer (Server.incoming i)

def supertypes (i : HierarchyItem) : Action Json :=
  Json.ofList item <$> onServer (Server.supertypes i)

def subtypes (i : HierarchyItem) : Action Json :=
  Json.ofList item <$> onServer (Server.subtypes i)

end LanguageServer.Editor
