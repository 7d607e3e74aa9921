import LanguageServer.FileTree
import LanguageServer.Timed.Listing
import LanguageServer.Url.Basic

/-! The source files below the roots of the workspace, listed anew when a listing has expired. -/
namespace LanguageServer

/-- The source files below a path, in order. Directories that hold no sources of their own are left
out: hidden ones, and those of built or fetched files. -/
def FileTree.sourcesBelow (t : FileTree) (root : Path) : List Path :=
  let isSource (name : String) : Bool :=
    match (Path.splitName name).2 with
    | some ext => ["pike", "pmod", "h"].contains ext
    | none => false
  let isSkipped (name : String) : Bool :=
    name.toList.head? = some '.' || ["node_modules", "target", "build", "dist"].contains name
  match t.locate? root with
  | none => []
  | some base =>
    let paths := t.entries.pairs.filterMap fun (place, entry) => do
      if !base.isPrefixOf place then none
      match entry with
      | .directory => none
      | _ =>
        -- what stands above the root has no say in whether a file is skipped
        let below := place.drop base.length
        let name ← if below.isEmpty then root.fileName else below.getLast?
        if isSource name && !(below.dropLast.any isSkipped)
        then some (below.foldl (fun (p : Path) n => p.join ⟨n⟩) root) else none
    paths.mergeSort Path.le

structure Workspace where
  roots : List Path
  listings : Timed.Listings (List Path)
  files : List Path
  /-- Whether the roots have been listed once. -/
  isReady : Bool

namespace Workspace

/-- The pattern that listings are kept under. -/
def pattern : String := "**/*.\x7bpike,pmod,h\x7d"

def empty (lifetime : Duration) : Workspace := ⟨[], .empty lifetime, [], false⟩

/-- Takes new roots; nothing listed before counts. -/
def setRoots (roots : List Path) (w : Workspace) : Workspace :=
  { w with roots, listings := w.listings.clear }

/-- The listing held for a root. -/
def listing (now : Instant) (root : Path) (w : Workspace) : Option (List Path) × Workspace :=
  let (l, listings) := w.listings.get now ⟨pattern, root⟩
  (l, { w with listings })

def keep (now : Instant) (root : Path) (files : List Path) (w : Workspace) : Workspace :=
  { w with listings := w.listings.insert now ⟨pattern, root⟩ files }

def invalidate (root : Path) (w : Workspace) : Workspace :=
  { w with listings := Timed.Listings.invalidate w.listings root }

/-- Drops every path that names the same place as the one before it. -/
def dropRepeats : List Path → List Path
  | [] => []
  | p :: rest =>
    match dropRepeats rest with
    | [] => [p]
    | q :: others => if p.same q then p :: others else p :: q :: others

/-- Publishes the listings of all roots as one. -/
def publish (files : List Path) (w : Workspace) : Nat × Workspace :=
  let files := dropRepeats (files.mergeSort Path.le)
  (files.length, { w with files, isReady := true })

def urls (w : Workspace) : List Url := w.files.filterMap Url.ofFilePath?

/-- The files that are not among the given ones; none before the first listing. -/
def unlisted (w : Workspace) (known : List Url) : List Url :=
  if w.isReady then w.urls.filter fun u => !known.contains u else []

end Workspace
end LanguageServer
