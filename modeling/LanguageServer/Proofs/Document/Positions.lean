import LanguageServer.Proofs.Document.EditorRule
import LanguageServer.Proofs.Symbol.Nesting
import Mathlib.Data.List.DropRight

/-! Offsets of positions and edits of texts: the offset of a position lies in the text, later
positions have later offsets, and every offset outside a line end is that of its line and column. -/
namespace LanguageServer.Document
open EditorRule (isBreak isBreak_endsLine lines_ne_nil lines_ended lines_plain spot index_eq_spot)

variable {cs l before after : List Char} {above below : List (List Char)} {c : Char} {k n j m : Nat}

/-! ## Lines -/

/-- A line: characters that end no line, and then what ends it, if anything does. -/
def IsLine (l : List Char) : Prop :=
  ∃ body stop, l = body ++ stop ∧ (∀ c ∈ body, ¬endsLine c) ∧
    (stop = [] ∨ stop = ['\r', '\n'] ∨ ∃ c, endsLine c ∧ stop = [c])

theorem isLine_of_mem (h : l ∈ lines cs) : IsLine l := by
  fun_induction lines cs generalizing l with
  | case1 => exact ⟨[], [], by simpa using h, by simp, .inl rfl⟩
  | case2 cs ih =>
    obtain rfl | h := List.mem_cons.mp h
    · exact ⟨[], ['\r', '\n'], rfl, by simp, .inr (.inl rfl)⟩
    · exact ih h
  | case3 c cs _ ends ih =>
    obtain rfl | h := List.mem_cons.mp h
    · exact ⟨[], [c], rfl, by simp, .inr (.inr ⟨c, ends, rfl⟩)⟩
    · exact ih h
  | case4 c cs _ _ empty => exact absurd empty (lines_ne_nil cs)
  | case5 c cs _ ends l' ls heq ih =>
    rw [heq] at ih
    obtain rfl | h := List.mem_cons.mp h
    · obtain ⟨body, stop, rfl, hbody, hstop⟩ := ih List.mem_cons_self
      exact ⟨c :: body, stop, rfl, by simpa [ends] using hbody, hstop⟩
    · exact ih (List.mem_cons_of_mem l' h)

/-- The last line has no end. -/
theorem not_endsLine_of_last (h : (lines cs).getLast? = some l) : ∀ c ∈ l, ¬endsLine c := by
  have hlast (l : List Char) (cs : List Char) : (l :: lines cs).getLast? = (lines cs).getLast? := by
    obtain ⟨l', ls, heq⟩ := List.exists_cons_of_ne_nil (lines_ne_nil cs)
    rw [heq, List.getLast?_cons_cons]
  fun_induction lines cs generalizing l with
  | case1 =>
    obtain rfl : [] = l := by simpa using h
    simp
  | case2 cs ih => exact ih (hlast _ cs ▸ h)
  | case3 c cs _ ends ih => exact ih (hlast _ cs ▸ h)
  | case4 c cs _ _ empty => exact absurd empty (lines_ne_nil cs)
  | case5 c cs _ ends l' ls heq ih =>
    rw [heq] at ih
    cases ls with
    | nil =>
      obtain rfl : c :: l' = l := by simpa using h
      simpa [ends] using ih rfl
    | cons l'' ls =>
      rw [List.getLast?_cons_cons] at h
      exact ih (List.getLast?_cons_cons.trans h)

/-! ## Columns -/

theorem column_mono (h : j ≤ k) (l : List Char) : column j l ≤ column k l := by
  fun_induction column j l generalizing k with
  | case1 => simp
  | case2 => simp
  | case3 j c l hbreak hunits ih =>
    rw [column, if_neg hbreak, if_pos (by omega)]
    have := ih (Nat.sub_le_sub_right h (Text.units c))
    omega
  | case4 => simp

/-- A column behind the characters before it, and not behind the next one, is their number. -/
theorem column_append (hbefore : ∀ c ∈ before, ¬isBreak c) (hj : ∀ c ∈ after.head?, j < Text.units c) :
    column (Text.unitCount before + j) (before ++ after) = before.length := by
  induction before with
  | nil =>
    cases after with
    | nil => rfl
    | cons c after =>
      have hunits : ¬Text.units c ≤ j := Nat.not_le_of_lt (hj c rfl)
      simp [column, Text.unitCount, hunits]
  | cons c before ih =>
    obtain ⟨hc, hbefore⟩ := List.forall_mem_cons.mp hbefore
    have hc : ¬(c = '\n' ∨ c = '\r') := by simpa [isBreak] using hc
    have hcount : Text.unitCount (c :: before) + j = Text.units c + (Text.unitCount before + j) := by
      simp only [Text.unitCount, List.foldr_cons]
      omega
    rw [List.cons_append, column, if_neg hc, hcount, if_pos (Nat.le_add_right ..),
      Nat.add_sub_cancel_left, ih hbefore, List.length_cons]

theorem column_zero (l : List Char) : column 0 l = 0 := by
  cases l with
  | nil => rfl
  | cons c l => simp [column, Nat.ne_of_gt (Text.units_pos c)]

/-- The characters of a line up to a column, in a loop that stops at the column, at a line end or in
front of a character that reaches beyond the column. -/
def scan (target : Nat) : List Char → Nat → Nat → Nat
  | [], _, chars => chars
  | c :: rest, seen, chars =>
    if c = '\n' ∨ c = '\r' then chars
    else if target < seen + Text.units c then chars
    else if seen + Text.units c = target then chars + 1
    else scan target rest (seen + Text.units c) (chars + 1)

theorem scan_eq {target seen : Nat} (h : seen ≤ target) (chars : Nat) (l : List Char) :
    scan target l seen chars = chars + column (target - seen) l := by
  induction l generalizing seen chars with
  | nil => rfl
  | cons c l ih =>
    rw [scan, column]
    by_cases hbreak : c = '\n' ∨ c = '\r'
    · rw [if_pos hbreak, if_pos hbreak, Nat.add_zero]
    · rw [if_neg hbreak, if_neg hbreak]
      by_cases hover : target < seen + Text.units c
      · rw [if_pos hover, if_neg (by omega), Nat.add_zero]
      · have hfits : Text.units c ≤ target - seen := by omega
        rw [if_neg hover, if_pos hfits, Nat.sub_sub]
        by_cases hdone : seen + Text.units c = target
        · rw [if_pos hdone, hdone, Nat.sub_self, column_zero]
        · rw [if_neg hdone, ih (by omega)]
          omega

/-- The characters of a line of one unit each up to a column: that many, but none of the line ends
that the line ends in. -/
def shortcut (target : Nat) (l : List Char) : Nat := min target (l.rdropWhile isBreak).length

/-- A line holds a line feed or a carriage return at its end only. -/
theorem not_isBreak_of_mem_rdropWhile (h : IsLine l) : ∀ c ∈ l.rdropWhile isBreak, ¬isBreak c := by
  obtain ⟨body, stop, rfl, hbody, hstop⟩ := h
  have hbody (c : Char) (hc : c ∈ body) : ¬isBreak c := fun hb => hbody c hc (isBreak_endsLine hb)
  have hwhole (c : Char) (hc : c ∈ body.rdropWhile isBreak) : ¬isBreak c :=
    hbody c ((List.rdropWhile_prefix isBreak _).subset hc)
  obtain rfl | rfl | ⟨c, -, rfl⟩ := hstop
  · simpa using hwhole
  · have hdrop : (body ++ ['\r', '\n']).rdropWhile isBreak = body.rdropWhile isBreak := by
      rw [show ['\r', '\n'] = ['\r'] ++ ['\n'] from rfl, ← List.append_assoc,
        List.rdropWhile_concat_pos _ _ _ rfl, List.rdropWhile_concat_pos _ _ _ rfl]
    rwa [hdrop]
  · by_cases hc : isBreak c
    · rwa [List.rdropWhile_concat_pos _ _ _ hc]
    · rw [List.rdropWhile_concat_neg _ _ _ hc]
      exact List.forall_mem_append.mpr ⟨hbody, by simpa using hc⟩

/-- Among characters of one unit each, before a line end, a column is a number of characters. -/
theorem column_ascii (target : Nat) (hbefore : ∀ c ∈ before, ¬isBreak c ∧ c.toNat < 128)
    (hafter : ∀ c ∈ after, isBreak c) : column target (before ++ after) = min target before.length := by
  induction before generalizing target with
  | nil =>
    cases after with
    | nil => simp [column]
    | cons c after =>
      have hc : c = '\n' ∨ c = '\r' := by simpa [isBreak] using hafter c List.mem_cons_self
      simp [column, hc]
  | cons c before ih =>
    obtain ⟨⟨hc, hascii⟩, hbefore⟩ := List.forall_mem_cons.mp hbefore
    have hc : ¬(c = '\n' ∨ c = '\r') := by simpa [isBreak] using hc
    have hunits : Text.units c = 1 := if_pos (by omega)
    rw [List.cons_append, column, if_neg hc, hunits, ih (target - 1) hbefore, List.length_cons]
    split <;> omega

theorem shortcut_eq_column (h : IsLine l) (hascii : ∀ c ∈ l, c.toNat < 128) (target : Nat) :
    shortcut target l = column target l := by
  have hbefore : ∀ c ∈ l.rdropWhile isBreak, ¬isBreak c ∧ c.toNat < 128 := fun c hc =>
    ⟨not_isBreak_of_mem_rdropWhile h c hc, hascii c ((List.rdropWhile_prefix isBreak _).subset hc)⟩
  have hafter : ∀ c ∈ l.rtakeWhile isBreak, isBreak c := fun c => List.mem_rtakeWhile_imp
  calc shortcut target l
      = column target (l.rdropWhile isBreak ++ l.rtakeWhile isBreak) :=
        (column_ascii target hbefore hafter).symm
    _ = column target l := by rw [List.rdropWhile_append_rtakeWhile]

/-! ## Offsets -/

/-- Where a line starts. -/
def start (n : Nat) (cs : List Char) : Nat := ((lines cs).take n).flatten.length

theorem spot_of_line (hl : (lines cs)[n]? = some l) : spot n k cs = start n cs + column k l := by
  have hlength (ls : List (List Char)) : ls.foldr (fun l m => l.length + m) 0 = ls.flatten.length := by
    induction ls <;> simp_all
  simp only [spot, hl, hlength, start]

theorem spot_of_none (h : (lines cs)[n]? = none) : spot n k cs = cs.length := by
  simp only [spot, h]

theorem start_succ (hl : (lines cs)[n]? = some l) : start (n + 1) cs = start n cs + l.length := by
  simp [start, List.take_add_one, hl]

theorem start_mono (h : n ≤ m) (cs : List Char) : start n cs ≤ start m cs := by
  have hsub : ((lines cs).take n).flatten <+: ((lines cs).take m).flatten := by
    obtain ⟨rest, hrest⟩ : (lines cs).take n <+: (lines cs).take m := List.take_prefix_take_left h
    exact ⟨rest.flatten, by rw [← hrest, List.flatten_append]⟩
  exact hsub.length_le

theorem start_le_length (n : Nat) (cs : List Char) : start n cs ≤ cs.length := by
  have hall : cs.length = start (max n (lines cs).length) cs := by
    rw [start, List.take_of_length_le (Nat.le_max_right ..), flatten_lines]
  exact hall ▸ start_mono (Nat.le_max_left ..) cs

theorem start_of_none (h : (lines cs)[n]? = none) : start n cs = cs.length := by
  rw [start, List.take_of_length_le (List.getElem?_eq_none_iff.mp h), flatten_lines]

/-- A position of a line is not in front of the line. -/
theorem start_le_spot (n k : Nat) (cs : List Char) : start n cs ≤ spot n k cs := by
  cases hl : (lines cs)[n]? with
  | none => exact spot_of_none hl ▸ start_le_length n cs
  | some l => exact spot_of_line hl ▸ Nat.le_add_right ..

/-- A position of a line is not behind the start of the next line. -/
theorem spot_le_start_succ (n k : Nat) (cs : List Char) : spot n k cs ≤ start (n + 1) cs := by
  cases hl : (lines cs)[n]? with
  | none =>
    rw [spot_of_none hl, ← start_of_none hl]
    exact start_mono (Nat.le_succ n) cs
  | some l =>
    rw [spot_of_line hl, start_succ hl]
    exact Nat.add_le_add_left (column_le_length k l) _

theorem index_le_length (cs : List Char) (p : Position) : index cs p ≤ cs.length :=
  Nat.le_trans (spot_le_start_succ _ _ cs) (start_le_length _ cs)

theorem index_mono {p q : Position} (h : p ≤ q) (cs : List Char) : index cs p ≤ index cs q := by
  rw [index_eq_spot, index_eq_spot]
  obtain hline | ⟨hline, hcolumn⟩ := Position.le_iff.mp h
  · exact Nat.le_trans (spot_le_start_succ _ _ cs)
      (Nat.le_trans (start_mono hline cs) (start_le_spot _ _ cs))
  · rw [hline]
    cases hl : (lines cs)[q.line.toNat]? with
    | none => rw [spot_of_none hl, spot_of_none hl]
    | some l =>
      rw [spot_of_line hl, spot_of_line hl]
      exact Nat.add_le_add_left (column_mono hcolumn l) _

/-- Where an offset stands: the lines above its own, and what is before and after it there. An offset
between two lines stands at the start of the second one. -/
structure StandsAt (cs : List Char) (k : Nat) (above : List (List Char)) (before after : List Char)
    (below : List (List Char)) : Prop where
  split : lines cs = above ++ (before ++ after) :: below
  offset : k = above.flatten.length + before.length
  within : after ≠ [] ∨ below = []

theorem exists_split (ls : List (List Char)) (hne : ls ≠ []) (h : k ≤ ls.flatten.length) :
    ∃ above before after below, ls = above ++ (before ++ after) :: below ∧
      k = above.flatten.length + before.length ∧ (after ≠ [] ∨ below = []) := by
  induction ls generalizing k with
  | nil => exact absurd rfl hne
  | cons l ls ih =>
    by_cases hin : k < l.length ∨ ls = []
    · refine ⟨[], l.take k, l.drop k, ls, by simp, ?_, ?_⟩
      · have hk : k ≤ l.length := by
          rcases hin with hlt | rfl
          · exact Nat.le_of_lt hlt
          · simpa using h
        simpa using hk
      · refine hin.imp_left fun hlt => ?_
        simpa using hlt
    · simp only [not_or, Nat.not_lt] at hin
      rw [List.flatten_cons, List.length_append] at h
      obtain ⟨above, before, after, below, rfl, hk, hwithin⟩ := ih hin.2 (k := k - l.length) (by omega)
      refine ⟨l :: above, before, after, below, rfl, ?_, hwithin⟩
      rw [List.flatten_cons, List.length_append]
      omega

theorem exists_standsAt (h : k ≤ cs.length) : ∃ above before after below,
    StandsAt cs k above before after below := by
  rw [← flatten_lines cs] at h
  obtain ⟨above, before, after, below, hlines, hk, hwithin⟩ := exists_split _ (lines_ne_nil cs) h
  exact ⟨above, before, after, below, hlines, hk, hwithin⟩

/-- An offset between a carriage return and the line feed that ends the line with it. -/
def SplitsEnd (cs : List Char) (k : Nat) : Prop :=
  ∃ before after, cs = before ++ '\r' :: '\n' :: after ∧ k = before.length + 1

theorem StandsAt.eq_append (h : StandsAt cs k above before after below) :
    cs = (above.flatten ++ before) ++ (after ++ below.flatten) := by
  rw [← flatten_lines cs, h.split]
  simp

/-- What is before an offset on its line holds no line feed and no carriage return, but for an offset
between the two. -/
theorem StandsAt.not_isBreak (h : StandsAt cs k above before after below) (hk : ¬SplitsEnd cs k) :
    ∀ c ∈ before, ¬isBreak c := by
  rcases h.within with hafter | rfl
  · have hmem : before ++ after ∈ lines cs := h.split ▸ by simp
    obtain ⟨body, stop, hline, hbody, hstop⟩ := isLine_of_mem hmem
    have hbody (c : Char) (hc : c ∈ body) : ¬isBreak c := fun hb => hbody c hc (isBreak_endsLine hb)
    obtain ⟨rest, rfl, -⟩ | ⟨rest, rfl, hstop'⟩ := List.append_eq_append_iff.mp hline
    · exact fun c hc => hbody c (List.mem_append_left rest hc)
    · cases rest with
      | nil => simpa using hbody
      | cons c rest =>
        -- Only an end of two characters can be split.
        exfalso
        obtain rfl | rfl | ⟨d, -, rfl⟩ := hstop
        · cases hstop'
        · obtain ⟨rfl, rfl, rfl⟩ : c = '\r' ∧ rest = [] ∧ after = ['\n'] := by
            cases rest <;> simp_all
          refine hk ⟨above.flatten ++ body, below.flatten, ?_, ?_⟩
          · rw [h.eq_append]
            simp
          · rw [h.offset]
            simp
            omega
        · simp_all
  · have hlast : (lines cs).getLast? = some (before ++ after) := by rw [h.split]; simp
    exact fun c hc hb => not_endsLine_of_last hlast c (List.mem_append_left after hc) (isBreak_endsLine hb)

/-- A column of the line of an offset, behind what is before it there and not behind the next
character, is the offset. -/
theorem StandsAt.index_eq (h : StandsAt cs k above before after below) (hk : ¬SplitsEnd cs k)
    {p : Position} (hline : p.line.toNat = above.length)
    (hcolumn : p.character.toNat = Text.unitCount before + j) (hj : ∀ c ∈ after.head?, j < Text.units c) :
    index cs p = k := by
  have hl : (lines cs)[above.length]? = some (before ++ after) := by simp [h.split]
  have hstart : start above.length cs = above.flatten.length := by simp [start, h.split]
  rw [index_eq_spot, hline, hcolumn, spot_of_line hl, column_append (h.not_isBreak hk) hj, hstart,
    h.offset]

/-- No character of two units stands inside a line end. -/
theorem StandsAt.not_splitsEnd (h : StandsAt cs k above before (c :: after) below)
    (hc : Text.units c = 2) : ¬SplitsEnd cs k := by
  rintro ⟨front, rest, hcs, hk⟩
  have hhere : cs[k]? = some c := by
    rw [h.eq_append, h.offset, ← List.length_append, List.getElem?_append_right (Nat.le_refl _)]
    simp
  have hfeed : cs[k]? = some '\n' := by
    rw [hcs, hk, List.getElem?_append_right (Nat.le_succ _)]
    simp
  obtain rfl : c = '\n' := Option.some.inj (hhere.symm.trans hfeed)
  exact absurd hc (by decide)

/-- Which lines of a text are held in one piece. -/
abbrev Storage := Nat → Bool

/-- The offset of a position as it is looked up: short cuts are taken on lines of one unit for each
character that are held in one piece, and all others are scanned. -/
def lookUp (stored : Storage) (cs : List Char) (p : Position) : Nat :=
  match (lines cs)[p.line.toNat]? with
  | some l => start p.line.toNat cs +
      if stored p.line.toNat && l.all (·.toNat < 128) then shortcut p.character.toNat l
      else scan p.character.toNat l 0 0
  | none => cs.length

/-- How a text is held makes no difference to the offsets in it. -/
theorem lookUp_eq (stored : Storage) (cs : List Char) (p : Position) : lookUp stored cs p = index cs p := by
  rw [index_eq_spot, lookUp]
  cases hl : (lines cs)[p.line.toNat]? with
  | none => rw [spot_of_none hl]
  | some l =>
    rw [spot_of_line hl]
    dsimp only
    split
    · rename_i hshort
      have hascii : ∀ c ∈ l, c.toNat < 128 := by
        simpa using (Bool.and_eq_true_iff.mp hshort).2
      rw [shortcut_eq_column (isLine_of_mem (List.mem_of_getElem? hl)) hascii]
    · rw [scan_eq (Nat.zero_le _), Nat.zero_add, Nat.sub_zero]

/-- How positions and offsets of a text belong together. -/
structure IsCharted (cs : List Char) : Prop where
  inside : ∀ p, index cs p ≤ cs.length
  monotone : ∀ p q, p ≤ q → index cs p ≤ index cs q
  placed : ∀ k ≤ cs.length, ∃ above before after below, StandsAt cs k above before after below
  back : ∀ k above before after below, StandsAt cs k above before after below → ¬SplitsEnd cs k →
    ∀ p : Position, p.line.toNat = above.length → p.character.toNat = Text.unitCount before →
      index cs p = k
  surrogate : ∀ k above before c after below, StandsAt cs k above before (c :: after) below →
    Text.units c = 2 → ∀ p : Position, p.line.toNat = above.length →
      p.character.toNat = Text.unitCount before + 1 → index cs p = k
  held : ∀ stored p, lookUp stored cs p = index cs p

theorem isCharted (cs : List Char) : IsCharted cs where
  inside := index_le_length cs
  monotone _ _ h := index_mono h cs
  placed _ h := exists_standsAt h
  back _ _ _ _ _ h hk _ hline hcolumn := h.index_eq hk hline hcolumn fun c _ => Text.units_pos c
  surrogate k above before c after below h hc p hline hcolumn := by
    refine h.index_eq (h.not_splitsEnd hc) hline hcolumn ?_
    simp [hc]
  held stored := lookUp_eq stored cs

end LanguageServer.Document

namespace LanguageServer.Edit
open Document (index Storage lookUp)

variable {cs out : List Char} {e : Edit} {es : List Edit}

/-- A text comes from another one by an edit: it is the text of the edit, or has it in place of the
characters between the smaller and the larger of the two offsets. -/
inductive Replaces (cs : List Char) (e : Edit) : List Char → Prop
  | whole (h : e.range = none) : Replaces cs e e.text.toList
  | part {r : Range} {front middle back : List Char} (h : e.range = some r)
    (hcs : cs = front ++ middle ++ back)
    (hlow : front.length = min (index cs r.start) (index cs r.stop))
    (hhigh : (front ++ middle).length = max (index cs r.start) (index cs r.stop)) :
    Replaces cs e (front ++ e.text.toList ++ back)

/-- A text comes from another one by edits in order. -/
inductive Folds : List Char → List Edit → List Char → Prop
  | nil (cs : List Char) : Folds cs [] cs
  | cons {cs next out : List Char} {e : Edit} {es : List Edit} (h : Replaces cs e next)
    (hes : Folds next es out) : Folds cs (e :: es) out

/-- What stands between two offsets of a text. -/
theorem exists_middle {low high : Nat} (hle : low ≤ high) (hhigh : high ≤ cs.length) :
    ∃ middle, cs = cs.take low ++ middle ++ cs.drop high ∧ (cs.take low ++ middle).length = high := by
  have hfront : cs.take low ++ (cs.take high).drop low = cs.take high := by
    calc cs.take low ++ (cs.take high).drop low
        = (cs.take high).take low ++ (cs.take high).drop low := by
          rw [List.take_take, Nat.min_eq_left hle]
      _ = cs.take high := List.take_append_drop ..
  refine ⟨(cs.take high).drop low, ?_, ?_⟩
  · rw [hfront, List.take_append_drop]
  · rw [hfront, List.length_take, Nat.min_eq_left hhigh]

/-- The offsets of a range, the smaller one first, lie in the text. -/
theorem bounds (cs : List Char) (r : Range) :
    min (index cs r.start) (index cs r.stop) ≤ max (index cs r.start) (index cs r.stop) ∧
      max (index cs r.start) (index cs r.stop) ≤ cs.length :=
  ⟨Nat.le_trans (Nat.min_le_left ..) (Nat.le_max_left ..),
    Nat.max_le.mpr ⟨Document.index_le_length cs _, Document.index_le_length cs _⟩⟩

theorem replaces_apply (cs : List Char) (e : Edit) : Replaces cs e (apply cs e) := by
  unfold apply
  cases hr : e.range with
  | none => exact .whole hr
  | some r =>
    obtain ⟨hle, hhigh⟩ := bounds cs r
    obtain ⟨middle, hcs, hlength⟩ := exists_middle hle hhigh
    refine .part hr hcs ?_ hlength
    rw [List.length_take, Nat.min_eq_left (Nat.le_trans hle hhigh)]

theorem folds_applyAll (cs : List Char) (es : List Edit) : Folds cs es (applyAll cs es) := by
  induction es generalizing cs with
  | nil => exact .nil cs
  | cons e es ih => exact .cons (replaces_apply cs e) (ih (apply cs e))

/-- Takes out what stands between two offsets; fails where that is not inside the text. -/
def remove? (cs : List Char) (low high : Nat) : Option (List Char) :=
  if low ≤ high ∧ high ≤ cs.length then some (cs.take low ++ cs.drop high) else none

/-- Puts in a text at an offset; fails behind the end. -/
def insert? (cs : List Char) (k : Nat) (new : List Char) : Option (List Char) :=
  if k ≤ cs.length then some (cs.take k ++ new ++ cs.drop k) else none

/-- Takes out and puts in, but nothing that has no characters. -/
def exchange? (cs : List Char) (low high : Nat) (new : List Char) : Option (List Char) :=
  (if low ≠ high then remove? cs low high else some cs).bind fun cs =>
    if new ≠ [] then insert? cs low new else some cs

/-- An edit by the operations of a stored text. -/
def perform? (stored : Storage) (cs : List Char) (e : Edit) : Option (List Char) :=
  match e.range with
  | none => some e.text.toList
  | some r =>
    let a := lookUp stored cs r.start
    let b := lookUp stored cs r.stop
    if a ≤ b then exchange? cs a b e.text.toList else exchange? cs b a e.text.toList

/-- Edits in order, each of a text however that is stored by then. -/
def performAll? : List Char → List (Storage × Edit) → Option (List Char)
  | cs, [] => some cs
  | cs, (stored, e) :: rest => (perform? stored cs e).bind fun cs => performAll? cs rest

theorem exchange?_eq {low high : Nat} (hle : low ≤ high) (hhigh : high ≤ cs.length) (new : List Char) :
    exchange? cs low high new = some (splice cs low high new) := by
  have hrest : (if low ≠ high then remove? cs low high else some cs) =
      some (cs.take low ++ cs.drop high) := by
    split
    · exact if_pos ⟨hle, hhigh⟩
    · rename_i hsame
      obtain rfl : low = high := not_not.mp hsame
      rw [List.take_append_drop]
  have hlow : (cs.take low).length = low := by rw [List.length_take]; omega
  rw [exchange?, hrest, Option.bind_some, splice]
  split
  · have hinside : low ≤ (cs.take low ++ cs.drop high).length := by rw [List.length_append]; omega
    rw [insert?, if_pos hinside, List.take_left' hlow, List.drop_left' hlow]
  · rename_i hnew
    rw [not_not.mp hnew, List.append_nil]

theorem perform?_eq (stored : Storage) (cs : List Char) (e : Edit) :
    perform? stored cs e = some (apply cs e) := by
  unfold perform? apply
  cases hr : e.range with
  | none => rfl
  | some r =>
    obtain ⟨hle, hhigh⟩ := bounds cs r
    simp only [Document.lookUp_eq]
    split
    · rename_i hab
      rw [Nat.min_eq_left hab, Nat.max_eq_right hab] at *
      exact exchange?_eq hle hhigh _
    · rename_i hab
      have hba := Nat.le_of_not_le hab
      rw [Nat.min_eq_right hba, Nat.max_eq_left hba] at *
      exact exchange?_eq hle hhigh _

theorem performAll?_eq (cs : List Char) (steps : List (Storage × Edit)) :
    performAll? cs steps = some (applyAll cs (steps.map (·.2))) := by
  induction steps generalizing cs with
  | nil => rfl
  | cons step steps ih =>
    rw [performAll?, perform?_eq, Option.bind_some, ih]
    rfl

end LanguageServer.Edit

namespace LanguageServer.DocumentStore
open Document (Storage)

/-- What a store has after changes of a document: that document with the text that the edits make of
the one there was, however that was stored, and every other document as it was. -/
structure Changes (d : DocumentStore) (u : Url) (doc : OpenDocument) (version : Int)
    (edits : List Edit) (out : List Char) : Prop where
  folds : Edit.Folds doc.text.toList edits out
  performs : ∀ steps : List (Storage × Edit), steps.map (·.2) = edits →
    Edit.performAll? doc.text.toList steps = some out
  answer : (d.change u version edits).1 = some (.version u version)
  documents : ∀ w, (d.change u version edits).2.documents.find? w =
    if u = w then some ⟨.ofList out, version⟩ else d.documents.find? w

/-- Positions and offsets belong together in every text; changes of an open document fold its edits
and set its version; changes of any other document do nothing. -/
theorem change_folds (d : DocumentStore) (u : Url) (version : Int) (edits : List Edit) :
    (∀ cs, Document.IsCharted cs) ∧
    (∀ doc, d.documents.find? u = some doc → ∃ out, d.Changes u doc version edits out) ∧
    (d.documents.find? u = none → d.change u version edits = (none, d)) := by
  refine ⟨Document.isCharted, fun doc hdoc => ?_, fun hnone => by rw [change, hnone]⟩
  refine ⟨Edit.applyAll doc.text.toList edits, Edit.folds_applyAll .., ?_, ?_, fun w => ?_⟩
  · rintro steps rfl
    exact Edit.performAll?_eq _ steps
  · rw [change, hdoc]
  · rw [change, hdoc]
    simp [Table.find?_insert]

/-- An edit from behind the end of the first line back into a surrogate pair takes out what is from
the pair on to the line end, and one below the text puts in at its end. -/
theorem change_folds_surrogate :
    let doc : OpenDocument := ⟨"a😀b\r\nc", 1⟩
    let held : DocumentStore := ⟨Table.empty.insert default doc⟩
    let edits : List Edit := [⟨some ⟨⟨0, 9⟩, ⟨0, 2⟩⟩, "x"⟩, ⟨some ⟨⟨7, 0⟩, ⟨7, 3⟩⟩, "!"⟩]
    ∃ out, held.Changes default doc 2 edits out ∧ String.ofList out = "ax\r\nc!" := by
  intro doc held edits
  have hopen : held.documents.find? default = some doc := by simp [held, Table.find?_insert]
  obtain ⟨out, hout⟩ := (change_folds held default 2 edits).2.1 doc hopen
  refine ⟨out, hout, ?_⟩
  have htext : (held.change default 2 edits).2.documents.find? default = some ⟨"ax\r\nc!", 2⟩ := by
    decide +kernel
  rw [hout.documents, if_pos rfl] at htext
  exact congrArg OpenDocument.text (Option.some.inj htext)

end LanguageServer.DocumentStore
