import LanguageServer.FileTree
import LanguageServer.Scenario.Input
import LanguageServer.Text.Hex

/-! The files that a scenario begins with. -/
namespace LanguageServer.Scenario

/-- What a JSON value puts at a path: a text, bytes in hexadecimal, or a directory for null. -/
def entryOf (time : Int) : Json → FileTree.Entry
  | .null => .directory
  | .string s => .file (Text.Utf8.encode s) time
  | j => .file (Text.Hex.decode (((j.member? "hex").bind Json.string?).getD "").toList) time

/-- A tree with an entry more, if it can be put at its path. -/
def putEntry (t : FileTree) (p : Path) (e : FileTree.Entry) : Read FileTree :=
  if t.canWrite p e then .ok (t.write p e) else .error (.file p.text)

/-- A tree with an empty directory and a program, and then the given files. -/
def filesOf (root program : Path) (time : Int) (files : Option Json) : Read FileTree :=
  let base := (FileTree.empty.write root .directory).write program .executable
  match files with
  | some (.object members) => members.foldlM (fun t m => putEntry t ⟨m.1⟩ (entryOf time m.2)) base
  | _ => .ok base

end LanguageServer.Scenario
