import LanguageServer.Document.Store
import Mathlib.Order.MinMax
import Mathlib.Tactic.ByContra
import Mathlib.Tactic.Set

/-! Positions and edits as the editor protocol reads them, against the ones of the store. The
protocol ends lines at a line feed, a carriage return, or both; the store ends them at five more
characters. -/
namespace LanguageServer.EditorRule
open Document (lines endsLine column index)

/-- The characters that the protocol ends a line at. -/
def isBreak (c : Char) : Bool := c = '\n' || c = '\r'

/-- The number of characters before a column of a line. A column behind its line is the end of
the line, a line behind the text is its end, and a column inside a surrogate pair stands for the
start of its character. -/
def place : Nat → Nat → List Char → Nat
  | _, _, [] => 0
  | 0, k, c :: cs =>
    if isBreak c then 0 else if Text.units c ≤ k then place 0 (k - Text.units c) cs + 1 else 0
  | n + 1, k, '\r' :: '\n' :: cs => place n k cs + 2
  | n + 1, k, c :: cs => place (if isBreak c then n else n + 1) k cs + 1

/-- The offset that the protocol gives a position. -/
def offset (cs : List Char) (p : Position) : Nat := place p.line.toNat p.character.toNat cs

/-- The text an editor has after an edit. -/
def apply (cs : List Char) (e : Edit) : List Char :=
  match e.range with
  | none => e.text.toList
  | some r =>
    Edit.splice cs (min (offset cs r.start) (offset cs r.stop))
      (max (offset cs r.start) (offset cs r.stop)) e.text.toList

/-- The text an editor has after edits in order. -/
def applyAll (cs : List Char) (es : List Edit) : List Char := es.foldl apply cs

/-- All line ends before the last character of a text are the protocol's. -/
def IsPlain (cs : List Char) : Prop := ∀ c ∈ cs.dropLast, endsLine c → isBreak c

instance (cs : List Char) : Decidable (IsPlain cs) :=
  List.decidableBAll (fun c => endsLine c → isBreak c) cs.dropLast

/-- What an edit with a range takes out of a text. -/
def removed (cs : List Char) (r : Range) : List Char :=
  (cs.take (max (index cs r.start) (index cs r.stop))).drop
    (min (index cs r.start) (index cs r.stop))

/-! ## The store's positions by recursion on the text -/

/-- The characters before a column of a line, the line and the column as numbers. -/
def spot (n k : Nat) (cs : List Char) : Nat :=
  match (lines cs)[n]? with
  | some l => ((lines cs).take n).foldr (fun l m => l.length + m) 0 + column k l
  | none => cs.length

theorem index_eq_spot (cs : List Char) (p : Position) :
    index cs p = spot p.line.toNat p.character.toNat cs := rfl

theorem lines_ne_nil (cs : List Char) : lines cs ≠ [] := by
  fun_cases lines cs <;> simp_all

theorem isBreak_endsLine {c : Char} (h : isBreak c) : endsLine c := by
  obtain rfl | rfl : c = '\n' ∨ c = '\r' := by simpa [isBreak] using h
  all_goals decide

@[simp] theorem spot_nil (n k : Nat) : spot n k [] = 0 := by
  cases n <;> simp [spot, lines, column]

theorem spot_succ_crlf (n k : Nat) (cs : List Char) :
    spot (n + 1) k ('\r' :: '\n' :: cs) = spot n k cs + 2 := by
  simp only [spot, lines, List.getElem?_cons_succ, List.take_succ_cons, List.foldr_cons,
    List.length_cons, List.length_nil]
  split <;> omega

theorem spot_zero_crlf (k : Nat) (cs : List Char) : spot 0 k ('\r' :: '\n' :: cs) = 0 := by
  simp [spot, lines, column]

/-- A character that ends its line by itself, not being the first half of a longer end. -/
theorem lines_ended {c : Char} {cs : List Char} (ends : endsLine c)
    (alone : ∀ rest, ¬ (c = '\r' ∧ cs = '\n' :: rest)) : lines (c :: cs) = [c] :: lines cs := by
  rw [lines]
  · simp [ends]
  · exact fun rest hc hcs => alone rest ⟨hc, hcs⟩

theorem lines_plain {c : Char} (cs : List Char) (plain : ¬ endsLine c) :
    ∃ l ls, lines cs = l :: ls ∧ lines (c :: cs) = (c :: l) :: ls := by
  obtain ⟨l, ls, heq⟩ := List.exists_cons_of_ne_nil (lines_ne_nil cs)
  refine ⟨l, ls, heq, ?_⟩
  rw [lines]
  · simp [plain, heq]
  · rintro rest rfl
    exact absurd (by decide) plain

theorem spot_succ_ended {c : Char} {cs : List Char} (n k : Nat) (ends : endsLine c)
    (alone : ∀ rest, ¬ (c = '\r' ∧ cs = '\n' :: rest)) :
    spot (n + 1) k (c :: cs) = spot n k cs + 1 := by
  simp only [spot, lines_ended ends alone, List.getElem?_cons_succ, List.take_succ_cons,
    List.foldr_cons, List.length_cons, List.length_nil]
  split <;> omega

theorem spot_zero_ended {c : Char} {cs : List Char} (k : Nat) (ends : endsLine c)
    (alone : ∀ rest, ¬ (c = '\r' ∧ cs = '\n' :: rest)) :
    spot 0 k (c :: cs) = column k [c] := by
  simp [spot, lines_ended ends alone]

theorem spot_succ_plain {c : Char} {cs : List Char} (n k : Nat) (plain : ¬ endsLine c) :
    spot (n + 1) k (c :: cs) = spot (n + 1) k cs + 1 := by
  obtain ⟨l, ls, heq, hcons⟩ := lines_plain cs plain
  simp only [spot, heq, hcons, List.getElem?_cons_succ, List.take_succ_cons, List.foldr_cons,
    List.length_cons]
  split <;> omega

theorem spot_zero_plain {c : Char} {cs : List Char} (k : Nat) (plain : ¬ endsLine c) :
    spot 0 k (c :: cs) =
      if Text.units c ≤ k then spot 0 (k - Text.units c) cs + 1 else 0 := by
  obtain ⟨l, ls, heq, hcons⟩ := lines_plain cs plain
  have noBreak : ¬ (c = '\n' ∨ c = '\r') := fun h =>
    plain (isBreak_endsLine (by simpa [isBreak] using h))
  simp [spot, heq, hcons, column, noBreak]

theorem spot_zero_break {c : Char} (k : Nat) (cs : List Char) (h : isBreak c) :
    spot 0 k (c :: cs) = 0 := by
  by_cases pair : ∃ rest, c = '\r' ∧ cs = '\n' :: rest
  · obtain ⟨rest, rfl, rfl⟩ := pair
    exact spot_zero_crlf k rest
  · rw [spot_zero_ended k (isBreak_endsLine h) (not_exists.mp pair)]
    have : c = '\n' ∨ c = '\r' := by simpa [isBreak] using h
    simp [column, this]

@[simp] theorem spot_zero_zero (cs : List Char) : spot 0 0 cs = 0 := by
  obtain ⟨l, ls, heq⟩ := List.exists_cons_of_ne_nil (lines_ne_nil cs)
  cases l <;> simp [spot, heq, column, Nat.ne_of_gt (Text.units_pos _)]

@[simp] theorem place_zero_zero (cs : List Char) : place 0 0 cs = 0 := by
  cases cs <;> simp [place, Nat.ne_of_gt (Text.units_pos _)]

theorem place_le_length (n k : Nat) (cs : List Char) : place n k cs ≤ cs.length := by
  fun_induction place n k cs <;> simp only [List.length_nil, List.length_cons] <;> omega

theorem place_succ_pos (n k : Nat) (c : Char) (cs : List Char) : 0 < place (n + 1) k (c :: cs) := by
  rw [place.eq_def]
  split <;> simp_all

/-! ## Where the two rules agree -/

theorem isPlain_cons {c : Char} {cs : List Char} :
    IsPlain (c :: cs) ↔ IsPlain cs ∧ (cs ≠ [] → endsLine c → isBreak c) := by
  cases cs <;> simp [IsPlain, and_comm]

/-- In a plain text the store finds a position where the protocol has it. -/
theorem spot_eq_place {cs : List Char} (plain : IsPlain cs) (n k : Nat) :
    spot n k cs = place n k cs := by
  fun_induction place n k cs with
  | case1 => simp
  | case2 k c cs hbreak => exact spot_zero_break k cs hbreak
  | case3 k c cs hbreak hunits ih =>
    obtain ⟨tail, head⟩ := isPlain_cons.mp plain
    by_cases ends : endsLine c
    · -- in a plain text, a line end that the protocol does not know can only come last
      obtain rfl : cs = [] := by
        by_contra hne
        exact hbreak (head hne ends)
      have noBreak : ¬ (c = '\n' ∨ c = '\r') := by simpa [isBreak] using hbreak
      rw [spot_zero_ended k ends (by simp)]
      simp [column, noBreak, hunits, place]
    · rw [spot_zero_plain k ends, if_pos hunits, ih tail]
  | case4 k c cs hbreak hunits =>
    by_cases ends : endsLine c
    · have alone : ∀ rest, ¬ (c = '\r' ∧ cs = '\n' :: rest) := by
        rintro rest ⟨rfl, -⟩
        exact hbreak rfl
      rw [spot_zero_ended k ends alone]
      simp [column, hunits]
    · rw [spot_zero_plain k ends, if_neg hunits]
  | case5 n k cs ih =>
    rw [spot_succ_crlf, ih (isPlain_cons.mp (isPlain_cons.mp plain).1).1]
  | case6 n k c cs alone ih =>
    obtain ⟨tail, head⟩ := isPlain_cons.mp plain
    have ih := ih tail
    by_cases ends : endsLine c
    · rw [spot_succ_ended n k ends (fun rest h => alone rest h.1 h.2)]
      by_cases hbreak : isBreak c
      · simpa [hbreak] using ih
      · obtain rfl : cs = [] := by
          by_contra hne
          exact hbreak (head hne ends)
        simp [place]
    · have hbreak : ¬ isBreak c := fun h => ends (isBreak_endsLine h)
      rw [spot_succ_plain n k ends]
      simpa [hbreak] using ih

/-- Behind the first line end that the protocol does not know, the store is a line ahead. -/
theorem exists_spot_lt_place {cs : List Char} (h : ¬ IsPlain cs) :
    ∃ n < cs.length, spot n 0 cs < place n 0 cs := by
  fun_induction lines cs with
  | case1 => exact absurd (by simp [IsPlain]) h
  | case2 cs ih =>
    obtain ⟨n, small, less⟩ := ih fun plain =>
      h (isPlain_cons.mpr ⟨isPlain_cons.mpr ⟨plain, fun _ _ => rfl⟩, fun _ _ => rfl⟩)
    refine ⟨n + 1, by simp; omega, ?_⟩
    rw [spot_succ_crlf, place]
    omega
  | case3 c cs alone ends ih =>
    have alone : ∀ rest, ¬ (c = '\r' ∧ cs = '\n' :: rest) := fun rest h => alone rest h.1 h.2
    by_cases hbreak : isBreak c
    · obtain ⟨n, small, less⟩ := ih fun plain => h (isPlain_cons.mpr ⟨plain, fun _ _ => hbreak⟩)
      refine ⟨n + 1, by simpa using small, ?_⟩
      rw [spot_succ_ended n 0 ends alone, place, if_pos hbreak]
      · omega
      · exact fun rest hc hcs => alone rest ⟨hc, hcs⟩
    · have hne : cs ≠ [] := by
        rintro rfl
        exact h (isPlain_cons.mpr ⟨by simp [IsPlain], fun hne => absurd rfl hne⟩)
      -- for the store the second line begins right behind `c`, for the protocol it begins later
      refine ⟨1, by simpa [List.length_pos_iff] using hne, ?_⟩
      rw [spot_succ_ended 0 0 ends alone, place, if_neg hbreak]
      · obtain ⟨d, rest, rfl⟩ := List.exists_cons_of_ne_nil hne
        have := place_succ_pos 0 0 d rest
        simp only [spot_zero_zero]
        omega
      · exact fun rest hc hcs => alone rest ⟨hc, hcs⟩
  | case4 c cs _ _ empty => exact absurd empty (lines_ne_nil cs)
  | case5 c cs alone ends l ls _ ih =>
    have hbreak : ¬ isBreak c := fun hb => ends (isBreak_endsLine hb)
    obtain ⟨n, small, less⟩ := ih fun plain =>
      h (isPlain_cons.mpr ⟨plain, fun _ hends => absurd hends ends⟩)
    obtain _ | n := n
    · simp at less
    · refine ⟨n + 1, by simp; omega, ?_⟩
      rw [spot_succ_plain n 0 ends, place, if_neg hbreak]
      · omega
      · rintro rest rfl
        exact absurd rfl hbreak

/-- The bound leaves room for the number of the line in a position. -/
theorem exists_index_lt_offset {cs : List Char} (small : cs.length ≤ UInt32.size)
    (h : ¬ IsPlain cs) : ∃ p, index cs p < offset cs p := by
  obtain ⟨n, hn, less⟩ := exists_spot_lt_place h
  have line : (UInt32.ofNat n).toNat = n := UInt32.toNat_ofNat_of_lt' (show n < UInt32.size by omega)
  refine ⟨⟨.ofNat n, 0⟩, ?_⟩
  rw [index_eq_spot, offset, line]
  exact less

/-- The store reads every position of a text as the protocol does exactly when the text is
plain. -/
theorem index_eq_offset_iff {cs : List Char} (small : cs.length ≤ UInt32.size) :
    (∀ p, index cs p = offset cs p) ↔ IsPlain cs := by
  refine ⟨fun agree => ?_, fun plain p => spot_eq_place plain _ _⟩
  by_contra h
  obtain ⟨p, less⟩ := exists_index_lt_offset small h
  exact absurd (agree p) (Nat.ne_of_lt less)

/-! ## Edits -/

theorem apply_eq {cs : List Char} {e : Edit} (plain : e.range.isSome → IsPlain cs) :
    Edit.apply cs e = apply cs e := by
  unfold Edit.apply apply
  cases hr : e.range with
  | none => rfl
  | some r =>
    have agree (p : Position) : index cs p = offset cs p :=
      spot_eq_place (plain (by simp [hr])) _ _
    simp only [agree]

/-- Text put in at two places makes two texts, when it starts unlike what stands at the first. -/
theorem splice_ne {cs : List Char} {i j : Nat} (less : i < j) (le : j ≤ cs.length) {d : Char}
    (unlike : cs[i]? ≠ some d) : Edit.splice cs i i [d] ≠ Edit.splice cs j j [d] := by
  intro same
  have left : (Edit.splice cs i i [d])[i]? = some d := by
    rw [Edit.splice, List.append_assoc, List.getElem?_append_right (by simp)]
    simp [Nat.min_eq_left (by omega : i ≤ cs.length)]
  have right : (Edit.splice cs j j [d])[i]? = cs[i]? := by
    rw [Edit.splice, List.append_assoc, List.getElem?_append_left (by simp; omega),
      List.getElem?_take_of_lt less]
  exact unlike (right ▸ same ▸ left)

/-- The store makes of every edit what the editor makes of it exactly when the text is plain. -/
theorem apply_eq_iff {cs : List Char} (small : cs.length ≤ UInt32.size) :
    (∀ e, Edit.apply cs e = apply cs e) ↔ IsPlain cs := by
  refine ⟨fun agree => ?_, fun plain e => apply_eq fun _ => plain⟩
  by_contra h
  obtain ⟨p, less⟩ := exists_index_lt_offset small h
  have le : offset cs p ≤ cs.length := place_le_length _ _ _
  let d : Char := if cs[index cs p]? = some 'a' then 'b' else 'a'
  have unlike : cs[index cs p]? ≠ some d := by
    by_cases isA : cs[index cs p]? = some 'a' <;> simp [d, isA]
  refine splice_ne less le unlike ?_
  simpa [Edit.apply, apply] using agree ⟨some ⟨p, p⟩, String.singleton d⟩

/-- Edits agree as long as no edit of a range meets a text that is not plain. -/
theorem applyAll_eq {cs : List Char} {es : List Edit}
    (plain : ∀ k e, es[k]? = some e → e.range.isSome → IsPlain (applyAll cs (es.take k))) :
    Edit.applyAll cs es = applyAll cs es := by
  induction es generalizing cs with
  | nil => rfl
  | cons e es ih =>
    have first : Edit.apply cs e = apply cs e := apply_eq fun h => plain 0 e rfl h
    calc
      Edit.applyAll cs (e :: es) = Edit.applyAll (apply cs e) es := by
        simp only [Edit.applyAll, List.foldl_cons, first]
      _ = applyAll (apply cs e) es := ih fun k e' he h => by
        simpa [applyAll] using plain (k + 1) e' (by simpa using he) h

theorem not_isBreak_of_mem_take_column {k : Nat} {l : List Char} {c : Char}
    (h : c ∈ l.take (column k l)) : ¬ isBreak c := by
  fun_induction column k l with
  | case1 => simp at h
  | case2 => simp at h
  | case3 k d l hd hunits ih =>
    obtain rfl | h := by simpa using h
    · simpa [isBreak] using hd
    · exact ih h
  | case4 => simp at h

/-- Between two columns of one line there is no line end of the protocol. -/
theorem not_isBreak_between (cs : List Char) (n j k : Nat) {c : Char}
    (h : c ∈ (cs.take (spot n k cs)).drop (spot n j cs)) : ¬ isBreak c := by
  cases hl : (lines cs)[n]? with
  | none => simp [spot, hl] at h
  | some l =>
    set before := ((lines cs).take n).flatten with hbefore
    have length : ((lines cs).take n).foldr (fun l m => l.length + m) 0 = before.length := by
      rw [hbefore]
      induction (lines cs).take n <;> simp_all
    obtain ⟨hn, hget⟩ := List.getElem?_eq_some_iff.mp hl
    have split : cs = before ++ (l ++ ((lines cs).drop (n + 1)).flatten) := by
      calc
        cs = (lines cs).flatten := (Document.flatten_lines cs).symm
        _ = ((lines cs).take n ++ (lines cs).drop n).flatten := by rw [List.take_append_drop]
        _ = _ := by rw [List.drop_eq_getElem_cons hn, hget]; simp [hbefore]
    simp only [spot, hl, length] at h
    rw [split, List.take_length_add_append, List.drop_length_add_append,
      List.take_append_of_le_length (Document.column_le_length k l)] at h
    exact not_isBreak_of_mem_take_column (List.mem_of_mem_drop h)

/-- An edit of a range on one line takes no line end of the protocol out of any text. -/
theorem not_isBreak_of_mem_removed {cs : List Char} {r : Range}
    (single : r.start.line = r.stop.line) {c : Char} (h : c ∈ removed cs r) : ¬ isBreak c := by
  unfold removed at h
  simp only [index_eq_spot, single] at h
  obtain le | le := Nat.le_total
      (spot r.stop.line.toNat r.start.character.toNat cs)
      (spot r.stop.line.toNat r.stop.character.toNat cs)
  · rw [max_eq_right le, min_eq_left le] at h
    exact not_isBreak_between cs _ _ _ h
  · rw [max_eq_left le, min_eq_right le] at h
    exact not_isBreak_between cs _ _ _ h

/-- What the store keeps of a document, against what the editor has. Positions and single edits
agree exactly when the text is plain; a list of edits agrees as long as no edit of a range meets
a text that is not; no edit of a range on one line takes out a line end of the protocol. -/
theorem change_follows {d : DocumentStore} {u : Url} {doc : OpenDocument}
    (isOpen : d.documents.find? u = some doc) (small : doc.text.toList.length ≤ UInt32.size)
    (version : Int) (edits : List Edit) :
    ((∀ p, index doc.text.toList p = offset doc.text.toList p) ↔ IsPlain doc.text.toList) ∧
    ((∀ e, Edit.apply doc.text.toList e = apply doc.text.toList e) ↔ IsPlain doc.text.toList) ∧
    ((∀ k e, edits[k]? = some e → e.range.isSome →
        IsPlain (applyAll doc.text.toList (edits.take k))) →
      (d.change u version edits).2.snapshot? u =
        some ⟨u, .ofList (applyAll doc.text.toList edits), .version u version⟩) ∧
    (∀ r : Range, r.start.line = r.stop.line →
      ∀ c ∈ removed doc.text.toList r, ¬ isBreak c) := by
  refine ⟨index_eq_offset_iff small, apply_eq_iff small, fun plain => ?_, fun r single c hc =>
    not_isBreak_of_mem_removed single hc⟩
  simp [DocumentStore.change, isOpen, DocumentStore.snapshot?, applyAll_eq plain,
    Table.find?_insert]

/-- The removal of a vertical tab with the character behind it takes out the tab alone. Where only
carriage returns and line feeds end lines, the store has what the editor has. -/
theorem change_follows_verticalTab :
    let held (text : String) : DocumentStore := ⟨Table.empty.insert default ⟨text, 1⟩⟩
    let cut : Edit := ⟨some ⟨⟨0, 1⟩, ⟨0, 3⟩⟩, ""⟩
    let past : Edit := ⟨some ⟨⟨0, 1⟩, ⟨0, 9⟩⟩, "c"⟩
    (¬ ∀ e, Edit.apply "a\x0bb\nc".toList e = apply "a\x0bb\nc".toList e) ∧
    ((held "a\x0bb\nc").change default 2 [cut]).2.snapshot? default =
      some ⟨default, "ab\nc", .version default 2⟩ ∧
    applyAll "a\x0bb\nc".toList [cut] = "a\nc".toList ∧
    ((held "a\r\nb").change default 2 [past, cut]).2.snapshot? default =
      some ⟨default, .ofList (applyAll "a\r\nb".toList [past, cut]), .version default 2⟩ := by
  intro held cut past
  have isOpen (text : String) : (held text).documents.find? default = some ⟨text, 1⟩ := by
    simp [held, Table.find?_insert]
  have strange := change_follows (isOpen "a\x0bb\nc") (by decide) 2 [cut]
  have plain := change_follows (isOpen "a\r\nb") (by decide) 2 [past, cut]
  refine ⟨fun agree => absurd (strange.2.1.mp agree) (by decide), ?_, by decide, ?_⟩
  · simp only [DocumentStore.change, isOpen, DocumentStore.snapshot?, Table.find?_insert]
    decide
  · refine plain.2.2.1 fun k e he _ => ?_
    obtain _ | _ | k := k
    · decide
    · decide
    · simp at he

end LanguageServer.EditorRule
