import LanguageServer.Url.Basic
import Mathlib.Data.List.Basic

/-! The components of paths that are joined, folded and cut. -/
namespace LanguageServer.Path

theorem splitSlashes_append_slash (a b : List Char) :
    splitSlashes (a ++ '/' :: b) = splitSlashes a ++ splitSlashes b := by
  induction a with
  | nil => rw [List.nil_append, splitSlashes_cons, if_pos rfl]; rfl
  | cons c a ih =>
    rw [List.cons_append, splitSlashes_cons, splitSlashes_cons, ih]
    split
    · rfl
    · match h : splitSlashes a with
      | [] => exact absurd h (splitSlashes_ne_nil a)
      | part :: parts => rfl

theorem splitSlashes_of_notMem {cs : List Char} (h : '/' ∉ cs) : splitSlashes cs = [cs] := by
  induction cs with
  | nil => rfl
  | cons c cs ih =>
    obtain ⟨hc, hcs⟩ : '/' ≠ c ∧ '/' ∉ cs := by simpa using h
    rw [splitSlashes_cons, if_neg hc.symm, ih hcs]

theorem not_slash_of_mem_splitSlashes {cs piece : List Char} (h : piece ∈ splitSlashes cs) :
    '/' ∉ piece := by
  induction cs generalizing piece with
  | nil =>
    rw [List.mem_singleton.mp h]
    exact List.not_mem_nil
  | cons c cs ih =>
    rw [splitSlashes_cons] at h
    split at h
    · obtain rfl | h := List.mem_cons.mp h
      · exact List.not_mem_nil
      · exact ih h
    · next hc =>
      match hcs : splitSlashes cs with
      | [] => exact absurd hcs (splitSlashes_ne_nil cs)
      | part :: parts =>
        rw [hcs] at h ih
        obtain rfl | h := List.mem_cons.mp h
        · have hpart : '/' ∉ part := ih List.mem_cons_self
          simpa [hpart] using Ne.symm hc
        · exact ih (List.mem_cons_of_mem _ h)

/-- What follows in a text without slashes belongs to the last piece. -/
theorem splitSlashes_append {a b : List Char} (hb : '/' ∉ b) :
    ∃ parts last, splitSlashes a = parts ++ [last] ∧ splitSlashes (a ++ b) = parts ++ [last ++ b] := by
  induction a with
  | nil => exact ⟨[], [], rfl, splitSlashes_of_notMem hb⟩
  | cons c a ih =>
    obtain ⟨parts, last, ha, hab⟩ := ih
    rw [List.cons_append, splitSlashes_cons, splitSlashes_cons, ha, hab]
    split
    · exact ⟨[] :: parts, last, rfl, rfl⟩
    · cases parts with
      | nil => exact ⟨[], c :: last, rfl, rfl⟩
      | cons part parts => exact ⟨(c :: part) :: parts, last, rfl, rfl⟩

/-- The pieces of texts without slashes that are put after slashes. -/
theorem splitSlashes_flatMap {piece : List Char} {pieces : List (List Char)} (h : '/' ∉ piece)
    (hs : ∀ p ∈ pieces, '/' ∉ p) :
    splitSlashes (piece ++ pieces.flatMap ('/' :: ·)) = piece :: pieces := by
  induction pieces generalizing piece with
  | nil => rw [List.flatMap_nil, List.append_nil, splitSlashes_of_notMem h]
  | cons p pieces ih =>
    obtain ⟨hp, hpieces⟩ := List.forall_mem_cons.mp hs
    rw [List.flatMap_cons, List.cons_append, splitSlashes_append_slash, splitSlashes_of_notMem h,
      ih hp hpieces]
    rfl

namespace Component

def name? : Component → Option String
  | .name n => some n
  | _ => none

/-- What stands for a component between slashes. -/
def text : Component → List Char
  | .root => []
  | .here => ['.']
  | .parent => ['.', '.']
  | .name n => n.toList

/-- A component that its text stands for between slashes. -/
structure IsInner (c : Component) : Prop where
  whole : '/' ∉ c.text
  read : component? false c.text = some c

end Component

open Component

/-- The components of a path below another one. -/
def trail (p : Path) : List Component := (splitSlashes p.text.toList).filterMap (component? false)

variable {p base : Path} {c : Component} {n : String} {ns : List String} {cs : List Component}

theorem component?_eq_some {piece : List Char} {b : Bool} (h : component? b piece = some c) :
    c.text = piece := by
  unfold component? at h
  split at h
  · cases h
  · split at h <;> cases h
    rfl
  · cases h; rfl
  · cases h; exact String.toList_ofList

theorem isInner_of_mem (h : c ∈ p.trail) : c.IsInner := by
  obtain ⟨piece, hpiece, hc⟩ := List.mem_filterMap.mp h
  obtain rfl := component?_eq_some hc
  exact ⟨not_slash_of_mem_splitSlashes hpiece, hc⟩

theorem trail_eq_singleton (h : c.IsInner) : trail ⟨String.ofList c.text⟩ = [c] := by
  rw [trail, String.toList_ofList, splitSlashes_of_notMem h.whole, List.filterMap_cons, h.read]
  rfl

theorem isAbsolute_iff : p.isAbsolute = true ↔ ∃ rest, p.text.toList = '/' :: rest := by
  rw [isAbsolute, decide_eq_true_eq, List.head?_eq_some_iff]

theorem components_of_isAbsolute (h : p.isAbsolute) : p.components = .root :: p.trail := by
  obtain ⟨rest, hrest⟩ := isAbsolute_iff.mp h
  rw [components, trail, hrest, splitSlashes_cons, if_pos rfl, h]
  rfl

/-- It does not matter for names where a piece stands. -/
theorem name?_component? (b : Bool) (piece : List Char) :
    (component? b piece).bind name? = (component? false piece).bind name? := by
  unfold component?
  split
  · rfl
  · cases b <;> rfl
  · rfl
  · rfl

theorem names_eq (p : Path) : p.names = p.trail.filterMap name? := by
  have hnames : p.names = p.components.filterMap name? := by
    rw [names]
    exact List.filterMap_congr fun c _ => by cases c <;> rfl
  cases habs : p.isAbsolute with
  | true =>
    rw [hnames, components_of_isAbsolute habs]
    rfl
  | false =>
    match hsplit : splitSlashes p.text.toList with
    | [] => exact absurd hsplit (splitSlashes_ne_nil _)
    | first :: rest =>
      have hfirst := name?_component? true first
      have hinner : p.trail = (first :: rest).filterMap (component? false) := by rw [trail, hsplit]
      rw [hnames, hinner, components, hsplit]
      simp only [habs, List.filterMap_cons, Bool.false_eq_true, if_false]
      cases ht : component? true first <;> cases hf : component? false first <;>
        simp_all [List.filterMap_cons]

/-- What is joined to an absolute path follows its components. -/
theorem trail_join (hbase : base.isAbsolute) (hp : p.isAbsolute = false) :
    (base.join p).isAbsolute ∧ (base.join p).trail = base.trail ++ p.trail := by
  obtain ⟨rest, hrest⟩ := isAbsolute_iff.mp hbase
  have hne : base.text.isEmpty = false := by
    rw [← Bool.not_eq_true, String.isEmpty_iff]
    intro hempty
    rw [hempty] at hrest
    cases hrest
  rw [join, hp]
  simp only [hne, Bool.false_eq_true, if_false, false_or]
  split
  · next hlast =>
    obtain ⟨front, hfront⟩ := List.getLast?_eq_some_iff.mp hlast
    refine ⟨isAbsolute_iff.mpr ⟨rest ++ p.text.toList, ?_⟩, ?_⟩
    · rw [String.toList_append, hrest, List.cons_append]
    · simp only [trail]
      rw [String.toList_append, hfront, List.append_assoc, List.singleton_append,
        splitSlashes_append_slash, splitSlashes_append_slash, List.filterMap_append,
        List.filterMap_append]
      have hempty : (splitSlashes []).filterMap (component? false) = [] := rfl
      rw [hempty, List.append_nil]
  · refine ⟨isAbsolute_iff.mpr ⟨rest ++ '/' :: p.text.toList, ?_⟩, ?_⟩
    · simp [hrest]
    · simp only [trail, String.toList_append]
      have hslash : "/".toList = ['/'] := rfl
      rw [hslash, List.append_assoc, List.singleton_append, splitSlashes_append_slash,
        List.filterMap_append]

theorem isAbsolute_ofList (h : c.IsInner) : isAbsolute ⟨String.ofList c.text⟩ = false := by
  rw [← Bool.not_eq_true, isAbsolute_iff]
  rintro ⟨rest, hrest⟩
  rw [String.toList_ofList] at hrest
  exact h.whole (hrest ▸ List.mem_cons_self)

/-- One step of folding: a pair of dots takes away the name before it. -/
def foldStep (done : List Component) (c : Component) : List Component :=
  match c, done with
  | .here, done => done
  | .parent, .name _ :: done => done
  | .parent, done => done
  | c, done => c :: done

theorem fold_eq (cs : List Component) : fold cs = (cs.foldl foldStep []).reverse := rfl

/-- Names that follow are kept. -/
theorem fold_append_names (cs : List Component) (ns : List String) :
    fold (cs ++ ns.map .name) = fold cs ++ ns.map .name := by
  have hnames (done : List Component) :
      (ns.map Component.name).foldl foldStep done = (ns.map Component.name).reverse ++ done := by
    induction ns generalizing done with
    | nil => rfl
    | cons n ns ih =>
      rw [List.map_cons, List.foldl_cons, ih, List.reverse_cons, List.append_assoc]
      rfl
  rw [fold_eq, fold_eq, List.foldl_append, hnames, List.reverse_append, List.reverse_reverse]

/-- Below the root, nothing but names is left. -/
theorem fold_root (hcs : ∀ c ∈ cs, c.IsInner) :
    ∃ ns : List String, fold (.root :: cs) = .root :: ns.map .name ∧
      ∀ n ∈ ns, (Component.name n).IsInner := by
  suffices h : ∀ done : List String, (∀ n ∈ done, (Component.name n).IsInner) →
      ∃ ns : List String, cs.foldl foldStep (done.map .name ++ [.root]) = ns.map .name ++ [.root] ∧
        ∀ n ∈ ns, (Component.name n).IsInner by
    obtain ⟨ns, hns, hinner⟩ := h [] (by simp)
    refine ⟨ns.reverse, ?_, fun n hn => hinner n (List.mem_reverse.mp hn)⟩
    have hfold : fold (.root :: cs) = (cs.foldl foldStep [.root]).reverse := rfl
    rw [hfold]
    simp only [List.map_nil, List.nil_append] at hns
    rw [hns, List.reverse_append, List.map_reverse]
    rfl
  intro done hdone
  induction cs generalizing done with
  | nil => exact ⟨done, rfl, hdone⟩
  | cons c cs ih =>
    obtain ⟨hc, hrest⟩ := List.forall_mem_cons.mp hcs
    rw [List.foldl_cons]
    cases c with
    | root => cases hc.read
    | here => cases hc.read
    | parent =>
      cases done with
      | nil => exact ih hrest [] hdone
      | cons n done => exact ih hrest done (List.forall_mem_cons.mp hdone).2
    | name n => exact ih hrest (n :: done) (List.forall_mem_cons.mpr ⟨hc, hdone⟩)

/-- Names that are joined to an absolute path one by one follow its components. -/
theorem trail_foldl_join (hbase : base.isAbsolute) (hns : ∀ n ∈ ns, (Component.name n).IsInner) :
    (ns.foldl (fun (p : Path) n => p.join ⟨n⟩) base).isAbsolute ∧
      (ns.foldl (fun (p : Path) n => p.join ⟨n⟩) base).trail = base.trail ++ ns.map .name := by
  induction ns generalizing base with
  | nil => exact ⟨hbase, by simp⟩
  | cons n ns ih =>
    obtain ⟨hn, hns⟩ := List.forall_mem_cons.mp hns
    have hone := trail_eq_singleton hn
    have hrelative := isAbsolute_ofList hn
    rw [Component.text, String.ofList_toList] at hone hrelative
    obtain ⟨habs, hinner⟩ := trail_join hbase hrelative
    obtain ⟨habs', hinner'⟩ := ih habs hns
    exact ⟨habs', by rw [List.foldl_cons, hinner', hinner, hone, List.append_assoc]; rfl⟩

/-- An absolute path that is folded is absolute, and only names are below its root. -/
theorem normalize_spec (h : p.isAbsolute) :
    ∃ ns : List String, fold p.components = .root :: ns.map .name ∧ p.normalize.isAbsolute ∧
      p.normalize.trail = ns.map .name := by
  rw [components_of_isAbsolute h]
  obtain ⟨ns, hns, hinner⟩ := fold_root fun c (hc : c ∈ p.trail) => isInner_of_mem hc
  refine ⟨ns, hns, ?_⟩
  have hroot : isAbsolute ⟨"/"⟩ := rfl
  have hnormal : p.normalize = ns.foldl (fun (p : Path) n => p.join ⟨n⟩) ⟨"/"⟩ := by
    rw [normalize, components_of_isAbsolute h, hns, ofComponents, List.foldl_cons, List.foldl_map]
    rfl
  obtain ⟨habs, hpath⟩ := trail_foldl_join hroot hinner
  rw [hnormal]
  exact ⟨habs, hpath.trans (by rfl)⟩

/-- The names at the end of a path stay there when it is folded. -/
theorem names_normalize (h : p.isAbsolute) {up : List Component}
    (hp : p.trail = up ++ ns.map .name) : ns <:+ p.normalize.names := by
  obtain ⟨all, hall, -, hinner⟩ := normalize_spec h
  have hnames (ns : List String) : (ns.map Component.name).filterMap name? = ns := by
    rw [List.filterMap_map]
    exact List.filterMap_some
  rw [components_of_isAbsolute h, hp, ← List.cons_append, fold_append_names] at hall
  refine ⟨(fold (.root :: up)).filterMap name?, ?_⟩
  have hsplit := congrArg (List.filterMap name?) hall
  rw [List.filterMap_append, hnames] at hsplit
  rw [names_eq, hinner, hsplit]
  rfl

theorem getLast?_trimReversed {cs : List Char} (h : cs.getLast? = some '/') :
    (trimReversed cs).getLast? = some '/' := by
  fun_induction trimReversed cs with
  | case1 => rfl
  | case2 rest hne ih =>
    refine ih ?_
    match rest with
    | [] => exact absurd rfl hne
    | c :: rest => simpa using h
  | case3 rest ih => exact ih (by simpa using h)
  | case4 => exact h

/-- The directory of an absolute path is absolute. -/
theorem isAbsolute_parent (h : p.isAbsolute) (hd : p.parent = some base) : base.isAbsolute := by
  obtain ⟨rest, hrest⟩ := isAbsolute_iff.mp h
  have hlast : (trimReversed p.text.toList.reverse).getLast? = some '/' :=
    getLast?_trimReversed (by rw [List.getLast?_reverse, hrest]; rfl)
  have hcut : ((trimReversed p.text.toList.reverse).dropWhile (· ≠ '/')).getLast? = some '/' := by
    obtain ⟨front, hfront⟩ := List.getLast?_eq_some_iff.mp hlast
    rw [hfront, List.dropWhile_append]
    split
    · rfl
    · rw [List.getLast?_append, List.getLast?_singleton, Option.some_or]
  have htext : (trimReversed ((trimReversed p.text.toList.reverse).dropWhile (· ≠ '/'))).getLast? =
      some '/' := getLast?_trimReversed hcut
  unfold parent at hd
  split at hd
  · cases hd
  · cases hd
  · cases hd
    rw [isAbsolute, decide_eq_true_eq, String.toList_ofList, List.head?_reverse, htext]

end LanguageServer.Path

/-! Text that is encoded as bytes and read again. -/
namespace LanguageServer.Text.Utf8

theorem toList_loop (bytes : ByteArray) (i : Nat) (done : List UInt8) :
    ByteArray.toList.loop bytes i done = done.reverse ++ bytes.data.toList.drop i := by
  fun_induction ByteArray.toList.loop bytes i done with
  | case1 i done hi ih =>
    have hlength : i < bytes.data.toList.length := by simpa using hi
    rw [ih, List.drop_eq_getElem_cons hlength]
    simp [ByteArray.get!, hi]
  | case2 i done hi =>
    rw [List.drop_eq_nil_of_le (by simpa using Nat.le_of_not_lt hi)]
    simp

theorem encodeChar_eq (c : Char) : encodeChar c = String.utf8EncodeChar c := by
  rw [encodeChar, String.toUTF8_eq_toByteArray, String.toByteArray_singleton,
    List.utf8Encode_singleton, ByteArray.toList, toList_loop]
  simp

theorem length_encodeChar_pos (c : Char) : 0 < (encodeChar c).length := by
  rw [encodeChar_eq, String.length_utf8EncodeChar]
  exact c.utf8Size_pos

theorem toNat_ofNat {n : Nat} (h : n < 256) : (UInt8.ofNat n).toNat = n := by
  rw [UInt8.toNat_ofNat', Nat.mod_eq_of_lt h]

theorem isContinuation_ofNat {n : Nat} (hn : 128 ≤ n) (h : n < 192) :
    isContinuation (UInt8.ofNat n) = true := by
  have hbyte := toNat_ofNat (n := n) (by omega)
  simp only [isContinuation, Bool.and_eq_true, decide_eq_true_eq, UInt8.le_iff_toNat_le,
    UInt8.lt_iff_toNat_lt, hbyte]
  exact ⟨hn, h⟩

/-- The first character of a text that is encoded is that character, and the rest is left. -/
theorem nextChar_encodeChar (c : Char) (rest : List UInt8) :
    nextChar (encodeChar c ++ rest) = .ok (c, rest) := by
  have hvalid : c.toNat < 0xD800 ∨ 0xDFFF < c.toNat ∧ c.toNat < 0x110000 := c.valid
  have hval : c.val.toNat = c.toNat := rfl
  have hchar {n : Nat} (h : n = c.toNat) : Char.ofNat n = c := by rw [h, Char.ofNat_toNat]
  rw [encodeChar_eq, String.utf8EncodeChar, hval]
  generalize c.toNat = v at *
  have hlast : isContinuation (UInt8.ofNat (v % 64 + 128)) = true :=
    isContinuation_ofNat (by omega) (by omega)
  have hmiddle : isContinuation (UInt8.ofNat (v / 64 % 64 + 128)) = true :=
    isContinuation_ofNat (by omega) (by omega)
  have hfirst : isContinuation (UInt8.ofNat (v / 4096 % 64 + 128)) = true :=
    isContinuation_ofNat (by omega) (by omega)
  -- as many bytes as the character takes
  split
  · simp only [nextChar, List.cons_append, List.nil_append]
    rw [toNat_ofNat (by omega), if_pos (by omega), hchar rfl]
  split
  · simp only [nextChar, List.cons_append, List.nil_append]
    rw [toNat_ofNat (by omega), if_neg (by omega), if_pos (by omega), if_pos hlast,
      toNat_ofNat (by omega), hchar (by omega)]
  split
  · simp only [nextChar, List.cons_append, List.nil_append]
    rw [toNat_ofNat (by omega), if_neg (by omega), if_neg (by omega), if_pos (by omega), if_pos,
      if_pos hlast, toNat_ofNat (by omega), toNat_ofNat (by omega), hchar (by omega)]
    simp only [UInt8.le_iff_toNat_le, UInt8.lt_iff_toNat_lt, UInt8.reduceToNat]
    rw [toNat_ofNat (by omega)]
    exact ⟨hmiddle, by omega, by omega⟩
  · simp only [nextChar, List.cons_append, List.nil_append]
    rw [toNat_ofNat (by omega), if_neg (by omega), if_neg (by omega), if_neg (by omega),
      if_pos (by omega), if_pos, if_pos hmiddle, if_pos hlast, toNat_ofNat (by omega),
      toNat_ofNat (by omega), toNat_ofNat (by omega), hchar (by omega)]
    simp only [UInt8.le_iff_toNat_le, UInt8.lt_iff_toNat_lt, UInt8.reduceToNat]
    rw [toNat_ofNat (by omega)]
    exact ⟨hfirst, by omega, by omega⟩

/-- A text that is encoded is read as it was. -/
theorem lossyText_flatMap (cs : List Char) :
    lossyText (cs.flatMap encodeChar) = String.ofList cs := by
  have hgo (fuel : Nat) (hfuel : (cs.flatMap encodeChar).length ≤ fuel) :
      lossyText.go fuel (cs.flatMap encodeChar) = cs := by
    induction cs generalizing fuel with
    | nil => cases fuel <;> rfl
    | cons c cs ih =>
      rw [List.flatMap_cons, List.length_append] at hfuel
      have hpos := length_encodeChar_pos c
      obtain ⟨fuel, rfl⟩ : ∃ n, fuel = n + 1 := ⟨fuel - 1, by omega⟩
      rw [List.flatMap_cons, lossyText.go, nextChar_encodeChar]
      exact congrArg _ (ih fuel (by omega))
  rw [lossyText, hgo _ (Nat.le_refl _)]

end LanguageServer.Text.Utf8

/-! Paths and the URLs that are made of them. -/
namespace LanguageServer

namespace Percent

theorem digit?_upperHex : ∀ n < 16, Text.Hex.digit? (upperHex n) = some n := by decide

theorem not_slash_upperHex : ∀ n < 16, upperHex n ≠ '/' := by decide

theorem decode_encodeByte (b : UInt8) (rest : List Char) :
    decode (encodeByte b ++ rest) = b :: decode rest := by
  have hb : b.toNat < 256 := b.toNat_lt
  simp only [encodeByte, List.cons_append, List.nil_append]
  rw [decode, digit?_upperHex _ (by omega), digit?_upperHex _ (by omega)]
  simp only [Nat.div_add_mod]
  rw [Nat.toUInt8, UInt8.ofNat_toNat]

theorem decode_encodeBytes (bytes : List UInt8) (rest : List Char) :
    decode (bytes.flatMap encodeByte ++ rest) = bytes ++ decode rest := by
  induction bytes with
  | nil => rfl
  | cons b bytes ih =>
    rw [List.flatMap_cons, List.append_assoc, decode_encodeByte, ih, List.cons_append]

/-- A character that is no percent sign stands for itself. -/
theorem decode_cons {c : Char} (hc : c ≠ '%') (rest : List Char) :
    decode (c :: rest) = Text.Utf8.encodeChar c ++ decode rest := by
  rw [decode]
  exact fun _ _ _ h => absurd h hc

/-- A text whose percent signs are encoded is decoded to its bytes. -/
theorem decode_encode {p : Char → Bool} (hp : p '%' = true) (cs : List Char) :
    decode (encode p cs) = cs.flatMap Text.Utf8.encodeChar := by
  induction cs with
  | nil => rfl
  | cons c cs ih =>
    have hsplit : encode p (c :: cs) = encodeChar p c ++ encode p cs := rfl
    rw [hsplit, List.flatMap_cons, encodeChar]
    split
    · rw [decode_encodeBytes, ih]
    · next hc =>
      have hne : c ≠ '%' := by rintro rfl; exact hc hp
      rw [List.singleton_append, decode_cons hne, ih]

theorem not_slash_encode {p : Char → Bool} (hp : p '/' = true) (cs : List Char) :
    '/' ∉ encode p cs := by
  intro h
  obtain ⟨c, -, hc⟩ := List.mem_flatMap.mp h
  rw [encodeChar] at hc
  split at hc
  · obtain ⟨b, -, hb⟩ := List.mem_flatMap.mp hc
    have hlt : b.toNat < 256 := b.toNat_lt
    simp only [encodeByte, List.mem_cons, List.not_mem_nil, or_false] at hb
    obtain hb | hb | hb := hb
    · cases hb
    · exact not_slash_upperHex _ (by omega) hb.symm
    · exact not_slash_upperHex _ (by omega) hb.symm
  · next hnot =>
    rw [List.mem_singleton] at hc
    exact hnot (hc ▸ hp)

end Percent

namespace Url
open LanguageServer.Path LanguageServer.Path.Component

/-- What stands for a component in a URL. -/
def segment : Component → List Char
  | .root => []
  | .here => ['.']
  | .parent => ['.', '.']
  | .name n => Percent.encode Percent.isSegment n.toList

variable {p : Path} {c : Component} {cs : List Component}

theorem not_slash_segment (c : Component) : '/' ∉ segment c := by
  cases c with
  | root => exact List.not_mem_nil
  | here => decide
  | parent => decide
  | name n => exact Percent.not_slash_encode rfl n.toList

/-- A segment is decoded to the bytes of what it stands for. -/
theorem decode_segment (c : Component) :
    Percent.decode (segment c) = c.text.flatMap Text.Utf8.encodeChar := by
  cases c with
  | root => rfl
  | here => exact Percent.decode_encode (p := Percent.isSegment) rfl ['.']
  | parent => exact Percent.decode_encode (p := Percent.isSegment) rfl ['.', '.']
  | name n => exact Percent.decode_encode rfl n.toList

/-- The text of an absolute path with these components below its root. -/
def pathText : List Component → List Char
  | [] => ['/']
  | c :: cs => (c :: cs).flatMap fun c => '/' :: c.text

/-- The pieces of the path that is put together of segments, or of nothing. -/
def piecesOf (f : Component → List Char) : List Component → List (List Char)
  | [] => [[]]
  | c :: cs => (c :: cs).map f

theorem splitSlashes_pieces {f : Component → List Char} (hf : ∀ c ∈ cs, '/' ∉ f c) :
    splitSlashes (cs.flatMap fun c => '/' :: f c) = [] :: cs.map f := by
  have hpieces : (cs.flatMap fun c => '/' :: f c) = (cs.map f).flatMap ('/' :: ·) := by
    rw [List.flatMap_map]
  rw [hpieces]
  refine splitSlashes_flatMap List.not_mem_nil fun piece hpiece => ?_
  obtain ⟨c, hc, rfl⟩ := List.mem_map.mp hpiece
  exact hf c hc

theorem trail_pathText (hcs : ∀ c ∈ cs, c.IsInner) : trail ⟨String.ofList (pathText cs)⟩ = cs := by
  rw [trail, String.toList_ofList]
  cases cs with
  | nil => rfl
  | cons c rest =>
    rw [pathText, splitSlashes_pieces (fun c hc => (hcs c hc).whole),
      List.filterMap_cons, List.filterMap_map]
    refine (List.filterMap_congr fun c hc => (hcs c hc).read).trans List.filterMap_some

/-- A slash at the end of a path adds nothing to it. -/
theorem trail_append_slash (text : String) : trail ⟨text ++ "/"⟩ = trail ⟨text⟩ := by
  have hslash : (text ++ "/").toList = text.toList ++ '/' :: [] := String.toList_append
  have hempty : (splitSlashes []).filterMap (component? false) = [] := rfl
  rw [trail, trail, hslash, splitSlashes_append_slash, List.filterMap_append, hempty, List.append_nil]

/-- The URL whose path is put together of these components. -/
def ofInner (cs : List Component) : Url :=
  let path := cs.flatMap fun c => '/' :: segment c
  ⟨"file", some "", if path.isEmpty then "/" else String.ofList path, none, none⟩

theorem ofFilePath?_eq (h : p.isAbsolute) : ofFilePath? p = some (ofInner p.trail) := by
  have hdrop : p.components.drop 1 = p.trail := by rw [components_of_isAbsolute h]; rfl
  rw [ofFilePath?, if_pos h, hdrop]
  rfl

theorem segments?_ofInner (cs : List Component) :
    (ofInner cs).segments? = some ((piecesOf segment cs).map String.ofList) := by
  cases cs with
  | nil => rfl
  | cons c cs =>
    have hsplit : splitSlashes ((c :: cs).flatMap fun c => '/' :: segment c) =
        [] :: (c :: cs).map segment := splitSlashes_pieces fun c _ => not_slash_segment c
    rw [List.flatMap_cons, List.cons_append, splitSlashes_cons, if_pos rfl] at hsplit
    have hpath : (ofInner (c :: cs)).path =
        String.ofList ('/' :: (segment c ++ cs.flatMap fun c => '/' :: segment c)) := rfl
    rw [segments?, hpath, String.toList_ofList]
    exact congrArg (fun pieces => some (pieces.map String.ofList)) (List.cons.inj hsplit).2

/-- The bytes of the segments, each after a slash, are those of the path. -/
theorem bytes_piecesOf (cs : List Component) :
    ((piecesOf segment cs).map String.ofList).flatMap
      (fun s => '/'.toNat.toUInt8 :: Percent.decode s.toList) =
      (pathText cs).flatMap Text.Utf8.encodeChar := by
  have hslash : Text.Utf8.encodeChar '/' = ['/'.toNat.toUInt8] := by
    rw [Text.Utf8.encodeChar_eq]
    rfl
  cases cs with
  | nil => rw [pathText, List.flatMap_singleton, hslash]; rfl
  | cons c cs =>
    rw [pathText, piecesOf, List.flatMap_map, List.flatMap_map, List.flatMap_assoc]
    refine List.flatMap_congr fun c _ => ?_
    rw [String.toList_ofList, decode_segment, List.flatMap_cons, hslash]
    rfl

/-- The URL of an absolute path names a path with the same components. -/
theorem toFilePath?_of_isAbsolute (h : p.isAbsolute) :
    ∃ u q, ofFilePath? p = some u ∧ u.toFilePath? = some q ∧ q.trail = p.trail := by
  have hinner : trail ⟨String.ofList (pathText p.trail)⟩ = p.trail :=
    trail_pathText fun c => isInner_of_mem
  have hhost : ¬ (((ofInner p.trail).authority.map hostOf).getD "" ≠ "" ∧
      ((ofInner p.trail).authority.map hostOf).getD "" ≠ "localhost") := fun hnot => hnot.1 rfl
  -- a drive gets a slash
  have hends (drive : Bool) : trail ⟨if drive then String.ofList (pathText p.trail) ++ "/"
      else String.ofList (pathText p.trail)⟩ = p.trail := by
    cases drive with
    | false => exact hinner
    | true => exact (trail_append_slash _).trans hinner
  have hfile : ∃ q, (ofInner p.trail).toFilePath? = some q ∧ q.trail = p.trail := by
    rw [toFilePath?, segments?_ofInner]
    simp only [Option.bind_eq_bind, Option.bind_some, if_neg hhost, bytes_piecesOf,
      Text.Utf8.lossyText_flatMap]
    exact ⟨_, rfl, hends _⟩
  obtain ⟨q, hq, hcomponents⟩ := hfile
  exact ⟨_, q, ofFilePath?_eq h, hq, hcomponents⟩

end Url
end LanguageServer
