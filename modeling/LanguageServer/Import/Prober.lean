import LanguageServer.FileTree
import LanguageServer.Import.Edge
import LanguageServer.Import.ModulePath

/-! Finding the file of an import. A path is looked for beside the importing file, then along the
include paths or the module roots; a dotted name is a module beside the file or under a root. -/
namespace LanguageServer

structure Prober where
  includePaths : List Path
  moduleRoots : List Path
  deriving Inhabited

namespace Prober

/-- The files in which a dotted name may be found under a root, in the order of the search. -/
def moduleCandidates (names : List String) (root : Path) : List Path :=
  let base := names.dropLast.foldl (fun (p : Path) n => p.join ⟨n ++ ".pmod"⟩) root
  match names.getLast? with
  | some last => [base.join ⟨last ++ ".pmod"⟩, base.join ⟨last ++ ".pike"⟩,
      (base.join ⟨last ++ ".pmod"⟩).join ⟨ModulePath.entryName⟩]
  | none => []

/-- The files that a target may mean in a directory, in the order of the search. -/
def candidates (p : Prober) (kind : ImportKind) (target : String) (directory : Path) : List Path :=
  if kind = .includeFile ∨ ModulePath.isPathLike target then
    let path : Path := ⟨target⟩
    if path.isAbsolute then [path]
    else
      let extra := if kind = .includeFile then p.includePaths else p.moduleRoots
      (directory :: extra).map fun d => (d.join path).normalize
  else
    let names := ModulePath.dotted target
    if names.contains "" then [] else (directory :: p.moduleRoots).flatMap (moduleCandidates names)

/-- The file that a target means in a file, if there is one. -/
def resolve (p : Prober) (files : FileTree) (kind : ImportKind) (target : String) (current : Path) :
    Option Path := do
  let target := ModulePath.unquote target
  if target.isEmpty then none
  let directory ← current.parent
  let found ← (p.candidates kind target directory).find? files.isFile
  return if (kind = .includeFile ∨ ModulePath.isPathLike target) ∧ (Path.mk target).isAbsolute
    then found.normalize else found

end Prober
end LanguageServer
