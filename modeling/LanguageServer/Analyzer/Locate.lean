import LanguageServer.FileTree
import LanguageServer.Text.Split

/-! Finding a program by its name. -/
namespace LanguageServer.Analyzer

/-- A path that leads to a program: one that says more than a name stands for itself, a bare name
is looked for in the directories of the search path. -/
def locate? (files : FileTree) (program : Path) (searchPath : Option String) : Option Path :=
  if program.text.isEmpty then none
  else if 1 < program.components.length ∨ program.isAbsolute then
    if files.isFile program then some program else none
  else do
    let directories := Text.split ':' (← searchPath).toList
    (directories.map fun d => (Path.mk (String.ofList d)).join program).find? files.isFile

end LanguageServer.Analyzer
