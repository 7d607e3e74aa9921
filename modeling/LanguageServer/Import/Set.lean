import LanguageServer.Hash
import LanguageServer.Import.Edge

/-! What one text declares to depend on. -/
namespace LanguageServer

/-- The imports of one state of a text, which its hash stands for. -/
structure ImportSet where
  hash : UInt64
  edges : List ImportEdge
  deriving DecidableEq, Inhabited

namespace ImportSet

/-- The files that were found, in the order of the imports, each once. -/
def urls (s : ImportSet) : List Url :=
  (s.edges.filterMap ImportEdge.url?).foldl (fun seen u => if seen.contains u then seen else seen ++ [u]) []

end ImportSet
end LanguageServer
