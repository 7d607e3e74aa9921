import LanguageServer.Json.Parser
import LanguageServer.Json.Printer
import LanguageServer.Text.Blank
import Mathlib.Data.List.Basic

/-! The tokens of a value that is written on one line. A value falls into the same tokens wherever
it stands, as long as what follows it cannot be taken for more digits. -/
namespace LanguageServer.Json

/-- What may follow a value on a line. -/
def Stops : List Char → Prop
  | [] => True
  | c :: _ => c = ',' ∨ c = ']' ∨ c = '}'

/-- A text that falls into tokens. -/
inductive Lexes : List Char → List Token → Prop
  | nil : Lexes [] []
  | token {c : Char} {cs rest : List Char} {t : Token} {ts : List Token} : isBlank c = false →
    readToken c cs = some (t, rest) → rest.length ≤ cs.length → Lexes rest ts → Lexes (c :: cs) (t :: ts)

theorem Lexes.tokens {cs : List Char} {ts : List Token} (h : Lexes cs ts) {fuel : Nat}
    (hfuel : cs.length ≤ fuel) (done : List Token) :
    tokens fuel cs done = some (done.reverse ++ ts) := by
  induction h generalizing fuel done with
  | nil => cases fuel <;> simp [Json.tokens]
  | @token c cs rest t ts hblank hread hle _ ih =>
    cases fuel with
    | zero => simp at hfuel
    | succ fuel =>
      have hrest : rest.length ≤ fuel := by simp at hfuel; omega
      simp [Json.tokens, hblank, hread, ih hrest]

/-! Strings. -/

theorem digit?_hexDigit : ∀ n < 16, Text.Hex.digit? (hexDigit n) = some n := by decide

theorem eq_ofNat_of_toNat_eq {c : Char} {n : Nat} (h : c.toNat = n) : c = Char.ofNat n := by
  rw [← h, Char.ofNat_toNat]

/-- The two last digits write a control character. -/
theorem hex4?_hexDigit {n : Nat} (h : n < 32) :
    hex4? '0' '0' (hexDigit (n / 16)) (hexDigit (n % 16)) = some n := by
  have hhigh := digit?_hexDigit (n / 16) (by omega)
  have hlow := digit?_hexDigit (n % 16) (by omega)
  have hzero : Text.Hex.digit? '0' = some 0 := by decide
  have hsum : n / 16 * 16 + n % 16 = n := by omega
  simp [hex4?, hhigh, hlow, hzero, hsum]

/-- A character is read back from what it was escaped to. -/
theorem readString_escapeChar (whole : Bool) (done : List Char) (c : Char) (rest : List Char) :
    readString whole done (escapeChar c ++ rest) = readString whole (c :: done) rest := by
  unfold escapeChar
  split
  · subst_vars; simp [readString]
  split
  · subst_vars; simp [readString]
  split
  · subst_vars; simp [readString]
  split
  · subst_vars; simp [readString]
  split
  · subst_vars; simp [readString]
  split
  · next h => simp [readString, eq_ofNat_of_toNat_eq h]
  split
  · next h => simp [readString, eq_ofNat_of_toNat_eq h]
  split
  · next h =>
    have hsmall : c.toNat < 0xD800 := by omega
    simp [readString, hex4?_hexDigit h, hsmall, Char.ofNat_toNat]
  · next hplain =>
    rw [List.cons_append, List.nil_append, readString, if_neg hplain] <;> simp_all

theorem readString_quoted (whole : Bool) (done cs rest : List Char) :
    readString whole done (cs.flatMap escapeChar ++ '"' :: rest) =
      some (whole, cs.reverse ++ done, rest) := by
  induction cs generalizing done with
  | nil => simp [readString]
  | cons c cs ih => simp [List.flatMap_cons, readString_escapeChar, ih]

theorem lexes_quote {rest : List Char} {ts : List Token} (h : Lexes rest ts) (s : String) :
    Lexes (quote s ++ rest) (.value (.string s) :: ts) := by
  have hread : readToken '"' (s.toList.flatMap escapeChar ++ '"' :: rest) =
      some (.value (.string s), rest) := by
    simp [readToken, readString_quoted]
  have htext : quote s ++ rest = '"' :: (s.toList.flatMap escapeChar ++ '"' :: rest) := by
    simp [quote]
  rw [htext]
  exact .token (by decide) hread (by simp; omega) h

/-! Numbers. -/

theorem not_isDigit_of_stops {rest : List Char} (h : Stops rest) :
    rest.takeWhile Char.isDigit = [] ∧ rest.dropWhile Char.isDigit = rest := by
  cases rest with
  | nil => simp
  | cons c rest => obtain rfl | rfl | rfl := h <;> simp

/-- The digits of a number end where what follows it begins. -/
theorem digits_append {ds rest : List Char} (hds : ∀ d ∈ ds, d.isDigit = true) (h : Stops rest) :
    digits (ds ++ rest) = (ds, rest) := by
  obtain ⟨htake, hdrop⟩ := not_isDigit_of_stops h
  simp [digits, List.takeWhile_append_of_pos hds, List.dropWhile_append_of_pos hds, htake, hdrop]

theorem ofDigits_toDigits (n : Nat) : ofDigits (Nat.toDigits 10 n) = n := by
  have h : Nat.ofDigitChars 10 (Nat.toDigits 10 n) 0 = n := Nat.ofDigitChars_ten_toDigits
  rw [Nat.ofDigitChars_eq_foldl] at h
  exact h

/-- Only zero begins with a zero. -/
theorem head?_toDigits {n : Nat} (h : 0 < n) : (Nat.toDigits 10 n).head? ≠ some '0' := by
  induction n using Nat.strongRecOn with
  | ind n ih =>
    rw [Nat.toDigits_eq_if (by decide)]
    split
    · simp; omega
    · next hle =>
      have htens := ih (n / 10) (by omega) (by omega)
      rw [List.head?_append_of_ne_nil _ Nat.toDigits_ne_nil]
      exact htens

/-- A number without a point is read by its digits alone. -/
theorem readNumber_toDigits (negative : Bool) (n : Nat) {rest : List Char} (h : Stops rest) :
    readNumber negative (Nat.toDigits 10 n ++ rest) =
      some ((((if ¬ negative ∧ (n : Int) ≤ maxInt then some (.int n)
        else if negative ∧ n ≠ 0 ∧ minInt ≤ -(n : Int) then some (.int (-(n : Int)))
        else ofDecimal? negative (Nat.toDigits 10 n) [] 0).map Token.value).getD .hugeNumber), rest) := by
  have hdigits : digits (Nat.toDigits 10 n ++ rest) = (Nat.toDigits 10 n, rest) :=
    digits_append (fun d => Nat.isDigit_of_mem_toDigits (by decide) (by decide)) h
  obtain ⟨first, more, hfirst⟩ := List.exists_cons_of_ne_nil (Nat.toDigits_ne_nil (n := n) (b := 10))
  have hzero : ¬ (first = '0' ∧ 0 < more.length) := by
    rintro ⟨rfl, hlong⟩
    obtain rfl | hn := Nat.eq_zero_or_pos n
    · simp_all
    · exact head?_toDigits hn (by simp [hfirst])
  have hn := ofDigits_toDigits n
  unfold readNumber
  simp only [hdigits]
  rw [hfirst] at hn ⊢
  cases rest with
  | nil => simp [hzero, hn]
  | cons c rest => obtain rfl | rfl | rfl := h <;> simp [hzero, hn]

theorem readToken_digit {c : Char} (h : c.isDigit = true) (rest : List Char) :
    readToken c rest = readNumber false (c :: rest) := by
  unfold readToken
  split <;> simp_all

theorem isBlank_digit {c : Char} (h : c.isDigit = true) : isBlank c = false := by
  simp only [isBlank, Bool.or_eq_false_iff, decide_eq_false_iff_not]
  refine ⟨⟨⟨?_, ?_⟩, ?_⟩, ?_⟩ <;> (rintro rfl; revert h; decide)

/-- An integer that 64 bits hold is read back, wherever it stands. -/
theorem lexes_int {rest : List Char} {ts : List Token} (hts : Lexes rest ts) (h : Stops rest) {n : Int}
    (hmin : minInt ≤ n) (hmax : n ≤ maxInt) :
    Lexes ((toString n).toList ++ rest) (.value (.int n) :: ts) := by
  cases n with
  | ofNat n =>
    have hread := readNumber_toDigits false n h
    have hmax : (n : Int) ≤ maxInt := hmax
    obtain ⟨first, more, hfirst⟩ := List.exists_cons_of_ne_nil (Nat.toDigits_ne_nil (n := n) (b := 10))
    have hdigit : first.isDigit = true :=
      Nat.isDigit_of_mem_toDigits (b := 10) (n := n) (by decide) (by decide) (by simp [hfirst])
    have htext : (toString (Int.ofNat n)).toList = first :: more := by
      simp [Int.toString_eq_repr, Int.repr, hfirst]
    rw [htext, List.cons_append]
    refine .token (isBlank_digit hdigit) ?_ (by simp) hts
    rw [readToken_digit hdigit, ← List.cons_append, ← hfirst, hread]
    simp [hmax]
  | negSucc n =>
    have hread := readNumber_toDigits true (n + 1) h
    have hmin : minInt ≤ -((n + 1 : Nat) : Int) := hmin
    have htext : (toString (Int.negSucc n)).toList = '-' :: Nat.toDigits 10 (n + 1) := by
      simp [Int.toString_eq_repr, Int.repr]
    rw [htext, List.cons_append]
    refine .token (by decide) ?_ (by simp) hts
    rw [readToken, hread, if_neg (by simp), if_pos ⟨rfl, by omega, hmin⟩]
    rfl

/-- A double whose text is read as this very double, wherever it stands. -/
def ReadsBack (bits : UInt64) : Prop :=
  ∃ c cs, (Binary64.text bits).toList = c :: cs ∧ isBlank c = false ∧
    ∀ rest, Stops rest → readToken c (cs ++ rest) = some (.value (.double bits), rest)

theorem readsBack_three_halves : ReadsBack 0x3FF8000000000000 := by
  have hvalue : ofDecimal? false ['1'] ['5'] 0 = some (.double 0x3FF8000000000000) := by
    with_unfolding_all rfl
  refine ⟨'1', ['.', '5'], by decide +kernel, by decide, fun rest h => ?_⟩
  cases rest with
  | nil => simp [readToken, readNumber, digits, hvalue]
  | cons c rest => obtain rfl | rfl | rfl := h <;> simp [readToken, readNumber, digits, hvalue]

/-- Values that are written so that they can be read: integers have 64 bits, doubles read back, and
containers nest less than so deep. -/
inductive Legible : Nat → Json → Prop
  | null {room : Nat} : Legible room .null
  | bool {room : Nat} (b : Bool) : Legible room (.bool b)
  | int {room : Nat} {n : Int} : minInt ≤ n → n ≤ maxInt → Legible room (.int n)
  | double {room : Nat} {bits : UInt64} : ReadsBack bits → Legible room (.double bits)
  | string {room : Nat} (s : String) : Legible room (.string s)
  | array {room : Nat} {items : List Json} : (∀ j ∈ items, Legible (room + 1) j) →
    Legible (room + 2) (.array items)
  | object {room : Nat} {members : List (String × Json)} : (∀ m ∈ members, Legible (room + 1) m.2) →
    Legible (room + 2) (.object members)

mutual

/-- The tokens that a value is written in. -/
def toTokens : Json → List Token
  | .array items => .openBracket :: itemTokens items
  | .object members => .openBrace :: memberTokens members
  | j => [.value j]

/-- Items up to the closing bracket. -/
def itemTokens : List Json → List Token
  | [] => [.closeBracket]
  | [j] => toTokens j ++ [.closeBracket]
  | j :: more => toTokens j ++ .comma :: itemTokens more

/-- Members up to the closing brace. -/
def memberTokens : List (String × Json) → List Token
  | [] => [.closeBrace]
  | [(n, j)] => .value (.string n) :: .colon :: toTokens j ++ [.closeBrace]
  | (n, j) :: more => .value (.string n) :: .colon :: toTokens j ++ .comma :: memberTokens more

end

theorem Lexes.comma {rest : List Char} {ts : List Token} (h : Lexes rest ts) :
    Lexes (',' :: rest) (.comma :: ts) := .token (by decide) rfl (Nat.le_refl _) h

theorem Lexes.colon {rest : List Char} {ts : List Token} (h : Lexes rest ts) :
    Lexes (':' :: rest) (.colon :: ts) := .token (by decide) rfl (Nat.le_refl _) h

section Containers

/-- However a value is followed, it falls into its own tokens. -/
def Spells (j : Json) : Prop := ∀ depth rest ts, Stops rest → Lexes rest ts →
  Lexes (j.write .line depth rest) (j.toTokens ++ ts)

variable {rest : List Char} {ts : List Token} (hts : Lexes rest ts) (depth : Nat)
include hts

theorem lexes_writeItems {items : List Json} (hitems : ∀ j ∈ items, Spells j) (hne : items ≠ []) :
    Lexes (writeItems .line depth items (']' :: rest)) (itemTokens items ++ ts) := by
  have hclose : Lexes (']' :: rest) (.closeBracket :: ts) := .token (by decide) rfl (Nat.le_refl _) hts
  induction items with
  | nil => exact absurd rfl hne
  | cons j more ih =>
    obtain ⟨hj, hmore⟩ := List.forall_mem_cons.mp hitems
    cases more with
    | nil =>
      simp only [writeItems, Layout.gap, itemTokens, List.append_assoc, List.nil_append]
      exact hj depth _ _ (by simp [Stops]) hclose
    | cons k more =>
      simp only [writeItems, Layout.gap, itemTokens, List.append_assoc, List.nil_append, List.cons_append]
      exact hj depth _ _ (by simp [Stops]) (ih hmore (List.cons_ne_nil _ _)).comma

theorem lexes_writeMembers {members : List (String × Json)} (hmembers : ∀ m ∈ members, Spells m.2)
    (hne : members ≠ []) :
    Lexes (writeMembers .line depth members ('}' :: rest)) (memberTokens members ++ ts) := by
  have hclose : Lexes ('}' :: rest) (.closeBrace :: ts) := .token (by decide) rfl (Nat.le_refl _) hts
  induction members with
  | nil => exact absurd rfl hne
  | cons m more ih =>
    obtain ⟨n, j⟩ := m
    obtain ⟨hj, hmore⟩ := List.forall_mem_cons.mp hmembers
    cases more with
    | nil =>
      simp only [writeMembers, Layout.gap, Layout.colon, memberTokens, List.append_assoc,
        List.nil_append, List.cons_append]
      exact lexes_quote (hj depth _ _ (by simp [Stops]) hclose).colon n
    | cons k more =>
      simp only [writeMembers, Layout.gap, Layout.colon, memberTokens, List.append_assoc,
        List.nil_append, List.cons_append]
      exact lexes_quote (hj depth _ _ (by simp [Stops]) (ih hmore (List.cons_ne_nil _ _)).comma).colon n

end Containers

theorem Legible.spells {room : Nat} {j : Json} (h : Legible room j) : Spells j := by
  intro depth rest ts hstops hts
  induction h generalizing depth rest ts with
  | null => exact .token (by decide) rfl (by simp; omega) hts
  | bool b =>
    cases b with
    | true => exact .token (by decide) rfl (by simp; omega) hts
    | false => exact .token (by decide) rfl (by simp; omega) hts
  | int hmin hmax => exact lexes_int hts hstops hmin hmax
  | double hbits =>
    obtain ⟨c, cs, htext, hblank, hread⟩ := hbits
    simp only [write, scalar, htext, List.cons_append]
    exact .token hblank (hread rest hstops) (by simp) hts
  | string s => exact lexes_quote hts s
  | @array room items _ ih =>
    cases items with
    | nil => exact .token (by decide) rfl (Nat.le_refl _) (.token (by decide) rfl (Nat.le_refl _) hts)
    | cons j more =>
      have hitems : ∀ k ∈ j :: more, Spells k := fun k hk depth rest ts h hts => ih k hk depth rest ts h hts
      simp only [write, Layout.gap, List.nil_append, toTokens, List.cons_append]
      exact .token (by decide) rfl (Nat.le_refl _)
        (lexes_writeItems hts _ hitems (List.cons_ne_nil _ _))
  | @object room members _ ih =>
    cases members with
    | nil => exact .token (by decide) rfl (Nat.le_refl _) (.token (by decide) rfl (Nat.le_refl _) hts)
    | cons m more =>
      have hmembers : ∀ k ∈ m :: more, Spells k.2 := fun k hk depth rest ts h hts =>
        ih k hk depth rest ts h hts
      simp only [write, Layout.gap, List.nil_append, toTokens, List.cons_append]
      exact .token (by decide) rfl (Nat.le_refl _)
        (lexes_writeMembers hts _ hmembers (List.cons_ne_nil _ _))

/-- A value on a line of its own falls into its tokens. -/
theorem Legible.tokens_compact {room : Nat} {j : Json} (h : Legible room j) :
    tokens (j.compact.toList.length + 1) j.compact.toList [] = some j.toTokens := by
  have hlexes := h.spells 0 [] [] trivial .nil
  rw [List.append_nil] at hlexes
  have htext : j.compact.toList = j.write .line 0 [] := by simp [compact]
  rw [htext]
  simpa using hlexes.tokens (Nat.le_succ _) []

end LanguageServer.Json

/-! A legible value is read back from the line that it is written on, and no such line contains a
newline. -/
namespace LanguageServer.Json

/-- A reader that wants a shape of a value is given the value itself, whatever follows it. -/
def Reads (shape : Shape) (room : Nat) (j : Json) : Prop := ∀ fuel ts, j.toTokens.length ≤ fuel →
  readValue fuel room shape (j.toTokens ++ ts) = some (j, ts)

section Containers

variable {room : Nat} {shape : Shape} {ts : List Token}

theorem readItems_itemTokens {items : List Json} (hitems : ∀ j ∈ items, Reads .whole room j)
    (hne : items ≠ []) (done : List Json) {fuel : Nat} (hfuel : (itemTokens items).length ≤ fuel) :
    readItems fuel room .whole done (itemTokens items ++ ts) =
      some (.array (done.reverse ++ items), ts) := by
  induction items generalizing done fuel with
  | nil => exact absurd rfl hne
  | cons j more ih =>
    obtain ⟨hj, hmore⟩ := List.forall_mem_cons.mp hitems
    cases fuel with
    | zero => cases more <;> simp [itemTokens] at hfuel
    | succ fuel =>
      cases more with
      | nil =>
        simp [itemTokens] at hfuel
        simp [itemTokens, readItems, Shape.items, hj fuel _ hfuel]
      | cons k more =>
        simp [itemTokens] at hfuel
        have hrest := ih hmore (List.cons_ne_nil _ _) (j :: done)
          (show (itemTokens (k :: more)).length ≤ fuel by omega)
        simp [itemTokens, readItems, Shape.items, hj fuel _ (by omega), hrest]

theorem readMembers_memberTokens {members : List (String × Json)}
    (hmembers : ∀ m ∈ members, ∃ inner, shape.member? m.1 = some inner ∧ Reads inner room m.2)
    (hne : members ≠ []) (done : List (String × Json)) {fuel : Nat}
    (hfuel : (memberTokens members).length ≤ fuel) :
    readMembers fuel room shape done (memberTokens members ++ ts) =
      some (.object (done.reverse ++ members), ts) := by
  induction members generalizing done fuel with
  | nil => exact absurd rfl hne
  | cons m more ih =>
    obtain ⟨n, j⟩ := m
    obtain ⟨⟨inner, hinner, hj⟩, hmore⟩ := List.forall_mem_cons.mp hmembers
    change Reads inner room j at hj
    cases fuel with
    | zero => cases more <;> simp [memberTokens] at hfuel
    | succ fuel =>
      cases more with
      | nil =>
        simp [memberTokens] at hfuel
        simp [memberTokens, readMembers, hinner, hj fuel (.closeBrace :: ts) (by omega)]
      | cons k more =>
        simp [memberTokens] at hfuel
        have hrest := ih hmore (List.cons_ne_nil _ _) ((n, j) :: done)
          (show (memberTokens (k :: more)).length ≤ fuel by omega)
        simp [memberTokens, readMembers, hinner, hj fuel _ (by omega), hrest]

/-- An object of two members is read by what its shape has for each. -/
theorem reads_pair {m₁ m₂ : String × Json} {inner₁ inner₂ : Shape}
    (h₁ : shape.member? m₁.1 = some inner₁) (hread₁ : Reads inner₁ room m₁.2)
    (h₂ : shape.member? m₂.1 = some inner₂) (hread₂ : Reads inner₂ room m₂.2) :
    ∀ m ∈ [m₁, m₂], ∃ inner, shape.member? m.1 = some inner ∧ Reads inner room m.2 :=
  List.forall_mem_cons.mpr ⟨⟨_, h₁, hread₁⟩, List.forall_mem_singleton.mpr ⟨_, h₂, hread₂⟩⟩

theorem reads_object {members : List (String × Json)}
    (hmembers : ∀ m ∈ members, ∃ inner, shape.member? m.1 = some inner ∧ Reads inner (room + 1) m.2) :
    Reads shape (room + 2) (.object members) := by
  intro fuel ts hfuel
  cases fuel with
  | zero => simp [toTokens] at hfuel
  | succ fuel =>
    cases members with
    | nil => simp [toTokens, memberTokens, readValue]
    | cons m more =>
      have hread : readMembers fuel (room + 1) shape [] (memberTokens (m :: more) ++ ts) = _ :=
        readMembers_memberTokens hmembers (List.cons_ne_nil _ _) [] (by simpa [toTokens] using hfuel)
      cases more <;> simpa [toTokens, memberTokens, readValue] using hread

theorem reads_array {items : List Json} (hitems : ∀ j ∈ items, Reads .whole (room + 1) j) :
    Reads .whole (room + 2) (.array items) := by
  intro fuel ts hfuel
  cases fuel with
  | zero => simp [toTokens] at hfuel
  | succ fuel =>
    cases items with
    | nil => simp [toTokens, itemTokens, readValue]
    | cons j more =>
      have hread : readItems fuel (room + 1) .whole [] (itemTokens (j :: more) ++ ts) = _ :=
        readItems_itemTokens hitems (List.cons_ne_nil _ _) [] (by simpa [toTokens] using hfuel)
      -- an item does not begin with a closing bracket
      cases j <;> cases more <;> simpa [toTokens, itemTokens, readValue] using hread

end Containers

theorem Legible.reads {room : Nat} {j : Json} (h : Legible room j) : Reads .whole room j := by
  induction h with
  | array _ ih => exact reads_array ih
  | object _ ih => exact reads_object fun m hm => ⟨.whole, rfl, ih m hm⟩
  | _ => intro fuel ts _; cases fuel <;> rfl

/-- A value is read back from its line by every reader that wants all that it holds. -/
theorem Legible.parseAs?_compact {shape : Shape} {j : Json} (h : Legible maxDepth j)
    (hreads : Reads shape maxDepth j) : parseAs? shape j.compact = some j := by
  have hread := hreads (j.toTokens.length + 1) [] (Nat.le_succ _)
  rw [List.append_nil] at hread
  simp [parseAs?, h.tokens_compact, hread]

theorem Legible.parse?_compact {j : Json} (h : Legible maxDepth j) : parse? j.compact = some j :=
  h.parseAs?_compact h.reads

/-! No newline is written, whatever the value. -/

theorem newline_not_mem_toDigits (n : Nat) : '\n' ∉ Nat.toDigits 10 n := fun h =>
  absurd (Nat.isDigit_of_mem_toDigits (by decide) (by decide) h) (by decide)

theorem newline_not_mem_int (n : Int) : '\n' ∉ (toString n).toList := by
  cases n with
  | ofNat n => simpa [Int.toString_eq_repr, Int.repr] using newline_not_mem_toDigits n
  | negSucc n => simpa [Int.toString_eq_repr, Int.repr] using newline_not_mem_toDigits (n + 1)

theorem newline_not_mem_text (bits : UInt64) : '\n' ∉ (Binary64.text bits).toList := by
  unfold Binary64.text
  generalize Binary64.decompose bits = parts
  obtain ⟨negative, m, q⟩ := parts
  dsimp only
  generalize Binary64.shortest m q = parts
  obtain ⟨digits, exponent⟩ := parts
  dsimp only
  generalize Binary64.text.trim 400 digits exponent = parts
  obtain ⟨digits, exponent⟩ := parts
  dsimp only
  have hdigits : '\n' ∉ (toString digits).toList := by
    simpa using newline_not_mem_toDigits digits
  generalize (toString digits).toList = cs at hdigits
  have htake (n : Nat) : '\n' ∉ cs.take n := fun h => hdigits (List.mem_of_mem_take h)
  have hdrop (n : Nat) : '\n' ∉ cs.drop n := fun h => hdigits (List.mem_of_mem_drop h)
  have hexponent := newline_not_mem_int (cs.length + exponent - 1)
  rw [String.toList_ofList]
  -- the mantissa has one digit, or a point after the first one
  rcases cs with _ | ⟨c, _ | ⟨d, more⟩⟩ <;> split_ifs <;> simp_all

theorem newline_not_mem_escapeChar (c : Char) : '\n' ∉ escapeChar c := by
  have hdigit : ∀ n < 16, '\n' ≠ hexDigit n := by decide
  have hlow := hdigit (c.toNat % 16) (by omega)
  unfold escapeChar
  split_ifs with _ _ hnewline _ _ _ _ hcontrol <;> simp
  · exact ⟨hdigit (c.toNat / 16) (by omega), hlow⟩
  · exact Ne.symm hnewline

theorem newline_not_mem_quote (s : String) : '\n' ∉ quote s := by
  simp [quote, newline_not_mem_escapeChar]

theorem newline_not_mem_scalar (j : Json) : '\n' ∉ scalar j := by
  cases j with
  | bool b => cases b <;> simp [scalar]
  | int n => exact newline_not_mem_int n
  | double bits => exact newline_not_mem_text bits
  | string s => exact newline_not_mem_quote s
  | _ => simp [scalar]

/-- A writer puts a text without newlines in front of what follows. -/
def Prepends (writer : List Char → List Char) : Prop :=
  ∃ own, '\n' ∉ own ∧ ∀ rest, writer rest = own ++ rest

theorem Prepends.comp {f g : List Char → List Char} (hf : Prepends f) (hg : Prepends g) :
    Prepends fun rest => f (g rest) := by
  obtain ⟨cs, hcs, hf⟩ := hf
  obtain ⟨ds, hds, hg⟩ := hg
  exact ⟨cs ++ ds, by simp [hcs, hds], fun rest => by simp [hf, hg]⟩

theorem prepends_append (cs : List Char) (h : '\n' ∉ cs) : Prepends (cs ++ ·) := ⟨cs, h, fun _ => rfl⟩

mutual

theorem prepends_write (depth : Nat) (j : Json) : Prepends (j.write .line depth) := by
  match j with
  | .array [] => exact prepends_append ['[', ']'] (by simp)
  | .array (k :: more) =>
    exact (prepends_append ['['] (by simp)).comp
      ((prepends_writeItems (depth + 1) (k :: more)).comp (prepends_append [']'] (by simp)))
  | .object [] => exact prepends_append ['{', '}'] (by simp)
  | .object (m :: more) =>
    exact (prepends_append ['{'] (by simp)).comp
      ((prepends_writeMembers (depth + 1) (m :: more)).comp (prepends_append ['}'] (by simp)))
  | .null => exact prepends_append _ (newline_not_mem_scalar .null)
  | .bool b => exact prepends_append _ (newline_not_mem_scalar (.bool b))
  | .int n => exact prepends_append _ (newline_not_mem_scalar (.int n))
  | .double bits => exact prepends_append _ (newline_not_mem_scalar (.double bits))
  | .string s => exact prepends_append _ (newline_not_mem_scalar (.string s))

theorem prepends_writeItems (depth : Nat) (items : List Json) :
    Prepends (writeItems .line depth items) := by
  match items with
  | [] => exact prepends_append [] (by simp)
  | [j] => exact prepends_write depth j
  | j :: k :: more =>
    exact (prepends_write depth j).comp
      ((prepends_append [','] (by simp)).comp (prepends_writeItems depth (k :: more)))

theorem prepends_writeMembers (depth : Nat) (members : List (String × Json)) :
    Prepends (writeMembers .line depth members) := by
  have hname (n : String) : Prepends fun rest => quote n ++ ([':'] ++ rest) :=
    (prepends_append _ (newline_not_mem_quote n)).comp (prepends_append _ (by simp))
  match members with
  | [] => exact prepends_append [] (by simp)
  | [(n, j)] => exact (hname n).comp (prepends_write depth j)
  | (n, j) :: m :: more =>
    exact ((hname n).comp (prepends_write depth j)).comp
      ((prepends_append [','] (by simp)).comp (prepends_writeMembers depth (m :: more)))

end

theorem newline_not_mem_compact (j : Json) : '\n' ∉ j.compact.toList := by
  obtain ⟨own, hown, hwrite⟩ := prepends_write 0 j
  simpa [compact, hwrite] using hown

/-- There is no white space around an object. -/
theorem trim_compact_object (members : List (String × Json)) :
    Text.trim (compact (.object members)) = compact (.object members) := by
  have hends : ∃ cs, (compact (.object members)).toList = '{' :: cs ++ ['}'] := by
    cases members with
    | nil => exact ⟨[], rfl⟩
    | cons m more =>
      obtain ⟨own, -, hwrite⟩ := prepends_writeMembers 1 (m :: more)
      exact ⟨own, by simp [compact, write, Layout.gap, hwrite]⟩
  obtain ⟨cs, hcs⟩ := hends
  have hopen : Text.isBlank '{' = false := by decide
  have hclose : Text.isBlank '}' = false := by decide
  rw [← String.toList_inj, hcs]
  simp [Text.trim, Text.stripEnds, hcs, hopen, hclose]

end LanguageServer.Json
