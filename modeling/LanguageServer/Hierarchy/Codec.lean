import LanguageServer.Hierarchy.Tree
import LanguageServer.Url.Codec

/-! Items, calls and trees as JSON, ranges in their short form. -/
namespace LanguageServer

def HierarchyItem.toJson (i : HierarchyItem) : Json :=
  .object [("detail", .ofOption .string i.detail), ("kind", .string i.kind.label),
    ("name", .string i.name), ("range", i.range.toQuad), ("selection_range", i.selection.toQuad),
    ("uri", i.url.toJson)]

def Call.toJson (c : Call) : Json :=
  .object [("item", c.item.toJson), ("ranges", .ofList Range.toQuad c.sites)]

def CallNode.toJson (n : CallNode) : Json :=
  .object [("call_sites", .ofList Range.toQuad n.sites), ("depth", .nat n.depth),
    ("item", n.item.toJson), ("parent", .ofOption .nat n.parent), ("repeated", .bool n.repeated)]

def CallTree.toJson (t : CallTree) : Json :=
  let children := (List.range t.nodes.length).map t.children
  .object [("children", .ofList (.ofList .nat) children), ("max_depth", .nat t.maxDepth),
    ("nodes", .ofList CallNode.toJson t.nodes), ("truncated", .bool t.truncated)]

end LanguageServer
