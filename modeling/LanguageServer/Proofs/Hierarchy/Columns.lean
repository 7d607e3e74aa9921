import LanguageServer.CommandLine
import LanguageServer.Proofs.Hierarchy.Gathering

/-! Lines and columns that are counted on. They have 32 bits and come from the analysis process as it
sends them, so a sum may be one too many: then a place of a call ends before it starts, and an error is
reported on line zero. Everywhere else the sums are those of the numbers. -/
namespace LanguageServer

namespace Range

end Range

namespace CommandLine

/-- The last line of all is reported as line zero. -/
example : errorLines ⟨[], [⟨⟨⟨4294967295, 0⟩, ⟨4294967295, 1⟩⟩, .error, "boom"⟩], []⟩ =
    ["Line 0:1: boom"] := by decide +kernel

end CommandLine

namespace Knowledge

variable {k : Knowledge} {limit : Nat} {item : HierarchyItem} {c : Call} {r : Range}

/-- A name at the last column of all ends where its line begins. -/
example : site ⟨1, 4294967295⟩ "g" = ⟨⟨1, 4294967295⟩, ⟨1, 0⟩⟩ := by decide +kernel

end Knowledge
end LanguageServer
