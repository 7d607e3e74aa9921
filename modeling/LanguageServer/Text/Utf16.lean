/-! Lengths in UTF-16 code units. -/
namespace LanguageServer.Text

def units (c : Char) : Nat := if c.toNat < 0x10000 then 1 else 2

def unitCount (cs : List Char) : Nat := cs.foldr (fun c n => units c + n) 0

theorem units_pos (c : Char) : 0 < units c := by unfold units; split <;> decide

end LanguageServer.Text
