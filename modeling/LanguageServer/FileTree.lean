import LanguageServer.Path
import LanguageServer.Table
import LanguageServer.Text.Utf8

/-! A tree of files and directories without links, and what a path denotes in it. -/
namespace LanguageServer

/-- What stands at a place of the tree. -/
inductive FileTree.Entry where
  | directory
  | file (bytes : List UInt8) (modified : Int)
  | executable
  deriving Inhabited

/-- Entries by the names that lead to them; the root is always a directory. Relative paths begin
at the working directory. -/
structure FileTree where
  entries : Table (List String) FileTree.Entry
  working : List String
  deriving Inhabited

namespace FileTree

/-- The names that lead to a place, from the root. -/
abbrev Place := List String

def empty : FileTree := ⟨.empty, []⟩

def entry? (t : FileTree) (at_ : Place) : Option Entry :=
  if at_.isEmpty then some .directory else t.entries.find? at_

def isDirectoryAt (t : FileTree) (at_ : Place) : Bool :=
  match t.entry? at_ with
  | some .directory => true
  | _ => false

/-- One step of a walk: only a directory can be entered, and only what exists can be reached. -/
def enter (t : FileTree) (at_ : Place) (piece : List Char) : Option Place :=
  if t.isDirectoryAt at_ then
    match piece with
    | [] => some at_
    | ['.'] => some at_
    | ['.', '.'] => some at_.dropLast
    | piece =>
      let next := at_ ++ [String.ofList piece]
      if (t.entry? next).isSome then some next else none
  else none

/-- The longest name and the longest path, in bytes. -/
def longestName : Nat := 255
def longestPath : Nat := 4095

/-- Whether a path can name anything: it is not empty, not too long, and holds no zero. -/
def isUsable (p : Path) : Bool :=
  !p.text.isEmpty && !p.text.toList.contains '\x00' && p.text.utf8ByteSize ≤ longestPath

/-- The place a path denotes, if there is anything. -/
def locate? (t : FileTree) (p : Path) : Option Place :=
  if isUsable p then
    (Path.splitSlashes p.text.toList).foldlM t.enter (if p.isAbsolute then [] else t.working)
  else none

def find? (t : FileTree) (p : Path) : Option Entry := (t.locate? p).bind t.entry?

def isFile (t : FileTree) (p : Path) : Bool :=
  match t.find? p with
  | some (.file _ _) => true
  | some .executable => true
  | _ => false

def isExecutable (t : FileTree) (p : Path) : Bool :=
  match t.find? p with
  | some .executable => true
  | _ => false

/-- The size and the time of the last change. -/
def status? (t : FileTree) (p : Path) : Option (Nat × Int) :=
  match t.find? p with
  | some (.file bytes modified) => some (bytes.length, modified)
  | some .directory => some (4096, 0)
  | some .executable => some (0, 0)
  | none => none

/-- The text of a file whose bytes are UTF-8. -/
def text? (t : FileTree) (p : Path) : Option String :=
  match t.find? p with
  | some (.file bytes _) => Text.Utf8.text? bytes
  | _ => none

/-- Why the text of a file cannot be read. -/
inductive ReadFault where
  | missing
  | notDirectory
  | isDirectory
  | nameTooLong
  | holdsZero
  | notText
  deriving DecidableEq, Inhabited

def ReadFault.message : ReadFault → String
  | .missing => "No such file or directory (os error 2)"
  | .notDirectory => "Not a directory (os error 20)"
  | .isDirectory => "Is a directory (os error 21)"
  | .nameTooLong => "File name too long (os error 36)"
  | .holdsZero => "file name contained an unexpected NUL byte"
  | .notText => "stream did not contain valid UTF-8"

/-- One step of a walk, or why it fails. -/
def step (t : FileTree) (at_ : Place) (piece : List Char) : Except ReadFault Place :=
  if !t.isDirectoryAt at_ then .error .notDirectory
  else if longestName < (String.ofList piece).utf8ByteSize then .error .nameTooLong
  else match t.enter at_ piece with
    | some next => .ok next
    | none => .error .missing

/-- The text of a file, or why it cannot be read. -/
def read (t : FileTree) (p : Path) : Except ReadFault String := do
  if p.text.toList.contains '\x00' then throw .holdsZero
  if p.text.isEmpty then throw .missing
  if longestPath < p.text.utf8ByteSize then throw .nameTooLong
  let place ← (Path.splitSlashes p.text.toList).foldlM t.step (if p.isAbsolute then [] else t.working)
  match t.entry? place with
  | some (.file bytes _) => match Text.Utf8.text? bytes with
    | some text => return text
    | none => throw .notText
  | some .directory => throw .isDirectory
  | _ => throw .notText

/-- The absolute path of what a path denotes, without dots. -/
def canonical? (t : FileTree) (p : Path) : Option Path :=
  (t.locate? p).map fun place => ⟨"/" ++ String.intercalate "/" place⟩

/-- The places on the way along a path, up to where it leads, if all directories on it existed. -/
def way (p : Path) : List Place :=
  (p.components.foldl (fun (at_, passed) c =>
    let next : Place := match c with
      | .root => []
      | .here => at_
      | .parent => at_.dropLast
      | .name n => at_ ++ [n]
    (next, next :: passed)) (([], []) : Place × List Place)).2.reverse

/-- Where a path leads if all directories on its way exist. -/
def placeOf (p : Path) : Place := (way p).getLast?.getD []

/-- Makes directories where there is nothing. -/
def makeDirectories (t : FileTree) (places : List Place) : FileTree :=
  { t with entries := places.foldl (fun es at_ =>
      if at_.isEmpty || es.contains at_ then es else es.insert at_ .directory) t.entries }

/-- Puts an entry at a path, making the directories on its way. -/
def write (t : FileTree) (p : Path) (e : Entry) : FileTree :=
  match e with
  | .directory => t.makeDirectories (way p)
  | e =>
    let t := t.makeDirectories (way p).dropLast
    { t with entries := t.entries.insert (placeOf p) e }

/-- Whether there is a directory at a place, or nothing. -/
def isFree (t : FileTree) (at_ : Place) : Bool :=
  match t.entry? at_ with
  | some .directory => true
  | none => true
  | _ => false

/-- Whether an entry can be put at a path: no file is in the way, a file takes no directory's place,
and the names are not too long. -/
def canWrite (t : FileTree) (p : Path) (e : Entry) : Bool :=
  let isShort (at_ : Place) : Bool := at_.getLast?.all (·.utf8ByteSize ≤ longestName)
  isUsable p && (way p).all isShort &&
    match e with
    | .directory => (way p).all t.isFree
    | _ => (way p).dropLast.all t.isFree && !t.isDirectoryAt (placeOf p) &&
      !(Path.splitSlashes p.text.toList).getLast?.any fun piece => [[], ['.'], ['.', '.']].contains piece

/-- Takes away a file, or a directory and all below it; says whether there was one. -/
def remove (t : FileTree) (p : Path) : Bool × FileTree :=
  match t.locate? p with
  | some at_ => (true, { t with entries := t.entries.filter fun k _ => !at_.isPrefixOf k })
  | none => (false, t)

def namesIn (t : FileTree) (at_ : Place) : List String :=
  (t.entries.keys.filterMap fun k =>
    if k.length = at_.length + 1 ∧ at_.isPrefixOf k then k.getLast? else none).mergeSort
      fun a b => !(b < a)

end FileTree
end LanguageServer
