import LanguageServer.Analysis.Basic
import LanguageServer.Url.Basic

/-! The functions, classes, modules and whole programs that hierarchies are made of. -/
namespace LanguageServer

inductive ItemKind where
  | function
  | method
  | classType
  | moduleType
  /-- A file, as the program it compiles to. -/
  | program
  deriving DecidableEq, Inhabited

namespace ItemKind

def label : ItemKind → String
  | .function => "function"
  | .method => "method"
  | .classType => "class"
  | .moduleType => "module"
  | .program => "program"

def ofLabel? (s : String) : Option ItemKind :=
  [ItemKind.function, .method, .classType, .moduleType, .program].find? fun k => k.label = s

end ItemKind

structure HierarchyItem where
  name : String
  kind : ItemKind
  url : Url
  range : Range
  selection : Range
  detail : Option String
  deriving DecidableEq, Inhabited

namespace HierarchyItem

/-- The item of a symbol; enumerations and leaves have none. -/
def ofSymbol? (u : Url) : Symbol → Option HierarchyItem
  | .scope h (.function signature _) _ => some ⟨h.name, .function, u, h.range, h.selection, signature⟩
  | .scope h (.method signature) _ => some ⟨h.name, .method, u, h.range, h.selection, signature⟩
  | .scope h .classScope _ => some ⟨h.name, .classType, u, h.range, h.selection, none⟩
  | .scope h .moduleScope _ => some ⟨h.name, .moduleType, u, h.range, h.selection, none⟩
  | _ => none

/-- The name of a file up to its last dot. -/
def programName (u : Url) : String :=
  match u.segments?.bind List.getLast? with
  | some file =>
    let cs := file.toList
    if cs.contains '.' then String.ofList ((cs.reverse.dropWhile (· ≠ '.')).drop 1).reverse else file
  | none => u.text

/-- A file as a program, at its very beginning. -/
def program (u : Url) : HierarchyItem := ⟨programName u, .program, u, default, default, some u.path⟩

/-- What tells items apart: the document, where the name stands, and the name. -/
structure Key where
  url : Url
  start : Position
  name : String
  deriving DecidableEq, Inhabited

def key (i : HierarchyItem) : Key := ⟨i.url, i.selection.start, i.name⟩

end HierarchyItem
end LanguageServer
