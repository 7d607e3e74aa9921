import LanguageServer.Text.Blank
import LanguageServer.Text.Split
import LanguageServer.Url.Basic

/-! Import targets: quoted paths and dotted names, and the documents that a target names by the
end of their path. -/
namespace LanguageServer.ModulePath

/-- The extensions of source files. -/
def sourceExtensions : List String := ["pike", "pmod", "h", "c"]

/-- The file that stands for the directory it is in. -/
def entryName : String := "module.pmod"

/-- What stands between an opening and a closing mark. -/
def between? (opening closing : Char) (cs : List Char) : Option (List Char) :=
  match cs with
  | c :: rest => if c = opening ∧ rest.getLast? = some closing then some rest.dropLast else none
  | [] => none

/-- A target without blanks around it and without the quotes or angle brackets it stands in. -/
def unquote (target : String) : String :=
  let cs := (Text.trim target).toList
  String.ofList (((between? '"' '"' cs).or (between? '<' '>' cs)).getD cs)

/-- What stands before and after the last dot. -/
def cutLastDot (cs : List Char) : Option (List Char × List Char) :=
  if cs.contains '.' then
    let reversed := cs.reverse
    some (((reversed.dropWhile (· ≠ '.')).drop 1).reverse, (reversed.takeWhile (· ≠ '.')).reverse)
  else none

def isSourceExtension (cs : List Char) : Bool := sourceExtensions.contains (String.ofList cs)

/-- Whether a target is a path rather than a dotted name. -/
def isPathLike (target : String) : Bool :=
  let cs := target.toList
  cs.contains '/' || cs.contains '\\' ||
    match cutLastDot cs with
    | some (_, ext) => isSourceExtension ext
    | none => false

def dotted (target : String) : List String := (Text.split '.' target.toList).map String.ofList

/-- A name without the extension of a source file. -/
def stem (name : String) : String :=
  match cutLastDot name.toList with
  | some (stem, ext) => if !stem.isEmpty && isSourceExtension ext then String.ofList stem else name
  | none => name

/-- The names that a target asks for at the end of a path. -/
def wanted? (target : String) : Option (List String) :=
  let target := unquote target
  let raw :=
    if isPathLike target then
      ((Text.splitAt (fun c => c = '/' || c = '\\') target.toList).map String.ofList).filter fun s =>
        s ≠ "" && s ≠ "." && s ≠ ".."
    else dotted target
  if raw.isEmpty ∨ raw.any (· = "") then none
  else
    let names := raw.map stem
    let names :=
      if names.getLast? = some "module" ∧ entryName.toList.isSuffixOf target.toList then names.dropLast
      else names
    if names.isEmpty then none else some names

/-- The names of the path of a document, extensions left out. -/
def namesOf (u : Url) : List String :=
  let raw := match u.toFilePath? with
    | some p => p.names
    | none => (u.segments?.getD []).filter (· ≠ "")
  let raw := if raw.getLast? = some entryName then raw.dropLast else raw
  raw.map stem

/-- Whether the path of a document ends with the names that a target asks for. -/
def isMatch (target : String) (u : Url) : Bool :=
  match wanted? target with
  | some names => names.isSuffixOf (namesOf u)
  | none => false

/-- The first document that a target names. -/
def find? (target : String) (candidates : List Url) : Option Url :=
  candidates.find? (isMatch target)

end LanguageServer.ModulePath
