import LanguageServer.Document.Edit
import LanguageServer.FileTree
import LanguageServer.Hash
import LanguageServer.Url.Basic

/-! Open documents, which hide the files of the same URL. -/
namespace LanguageServer

/-- Which text of a document is meant: the editor's version of an open one, or what the file
system tells of a closed one. -/
inductive Fingerprint where
  | version (url : Url) (version : Int)
  | stat (url : Url) (size : Nat) (modified : Int)
  deriving DecidableEq, Inhabited

def Fingerprint.url : Fingerprint → Url
  | .version u _ => u
  | .stat u _ _ => u

/-- The text of an open document as the editor last told it. -/
structure OpenDocument where
  text : String
  version : Int
  deriving DecidableEq, Inhabited

/-- A text and which one it is. -/
structure Snapshot where
  url : Url
  text : String
  fingerprint : Fingerprint
  deriving DecidableEq, Inhabited

def Snapshot.hash (s : Snapshot) : UInt64 := Hash.ofText s.text

structure DocumentStore where
  documents : Table Url OpenDocument
  deriving Inhabited

namespace DocumentStore

def empty : DocumentStore := ⟨.empty⟩

/-- Opens a document, or opens it anew. -/
def put (d : DocumentStore) (u : Url) (version : Int) (text : String) :
    Fingerprint × DocumentStore :=
  (.version u version, ⟨d.documents.insert u ⟨text, version⟩⟩)

/-- Edits an open document; nothing happens to one that is not open. -/
def change (d : DocumentStore) (u : Url) (version : Int) (edits : List Edit) :
    Option Fingerprint × DocumentStore :=
  match d.documents.find? u with
  | some doc =>
    let text := String.ofList (Edit.applyAll doc.text.toList edits)
    (some (.version u version), ⟨d.documents.insert u ⟨text, version⟩⟩)
  | none => (none, d)

def close (d : DocumentStore) (u : Url) : Bool × DocumentStore :=
  (d.documents.contains u, ⟨d.documents.erase u⟩)

def isOpen (d : DocumentStore) (u : Url) : Bool := d.documents.contains u

def urls (d : DocumentStore) : List Url := d.documents.keys.mergeSort Url.le

def fingerprint? (d : DocumentStore) (u : Url) : Option Fingerprint :=
  (d.documents.find? u).map fun doc => .version u doc.version

def snapshot? (d : DocumentStore) (u : Url) : Option Snapshot :=
  (d.documents.find? u).map fun doc => ⟨u, doc.text, .version u doc.version⟩

/-- What the file system tells of the file of a URL. -/
def statOf? (files : FileTree) (u : Url) : Option Fingerprint := do
  let path ← u.toFilePath?
  let (size, modified) ← files.status? path
  return .stat u size modified

/-- The text of a file and what the file system tells of it. -/
def fromDisk? (files : FileTree) (u : Url) : Option Snapshot := do
  let fingerprint ← statOf? files u
  let text ← files.text? (← u.toFilePath?)
  return ⟨u, text, fingerprint⟩

/-- The text of a document: the open one, or the file. -/
def read? (d : DocumentStore) (files : FileTree) (u : Url) : Option Snapshot :=
  (d.snapshot? u).or (fromDisk? files u)

end DocumentStore
end LanguageServer
