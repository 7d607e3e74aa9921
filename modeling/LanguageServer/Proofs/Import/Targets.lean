import LanguageServer.Hierarchy.Inheritance
import LanguageServer.Import.Prober
import LanguageServer.Proofs.Url.FilePath

/-! Import targets and the files they mean: the file that is found for a target, and the documents that
the target names by the end of their path. -/
namespace LanguageServer
open LanguageServer.Path LanguageServer.Path.Component

namespace Text

theorem splitAt_cons (p : Char → Bool) (c : Char) (rest : List Char) :
    splitAt p (c :: rest) = if p c then [] :: splitAt p rest else
      match splitAt p rest with
      | [] => [[c]]
      | part :: parts => (c :: part) :: parts := rfl

/-- The pieces of a text are made of its characters, without the separators. -/
theorem of_mem_splitAt {p : Char → Bool} {cs piece : List Char} (h : piece ∈ splitAt p cs) :
    ∀ c ∈ piece, c ∈ cs ∧ p c = false := by
  induction cs generalizing piece with
  | nil =>
    rw [splitAt_nil, List.mem_singleton] at h
    simp [h]
  | cons d cs ih =>
    rw [splitAt_cons] at h
    split at h
    · obtain rfl | h := List.mem_cons.mp h
      · simp
      · exact fun c hc => (ih h c hc).imp_left (List.mem_cons_of_mem _)
    · next hd =>
      match hcs : splitAt p cs with
      | [] => exact absurd hcs (splitAt_ne_nil p cs)
      | part :: parts =>
        rw [hcs] at h ih
        obtain rfl | h := List.mem_cons.mp h
        · refine List.forall_mem_cons.mpr ⟨⟨List.mem_cons_self, by simpa using hd⟩, fun c hc => ?_⟩
          exact (ih List.mem_cons_self c hc).imp_left (List.mem_cons_of_mem _)
        · exact fun c hc =>
            (ih (List.mem_cons_of_mem _ h) c hc).imp_left (List.mem_cons_of_mem _)

/-- Where the only separators are slashes, a text is cut as a path is. -/
theorem splitAt_eq_splitSlashes {p : Char → Bool} {cs : List Char}
    (h : ∀ c ∈ cs, p c = decide (c = '/')) : splitAt p cs = splitSlashes cs := by
  induction cs with
  | nil => rfl
  | cons c cs ih =>
    obtain ⟨hc, hcs⟩ := List.forall_mem_cons.mp h
    rw [splitAt_cons, splitSlashes_cons, ih hcs, hc]
    cases splitSlashes cs <;> simp only [decide_eq_true_eq]

end Text

namespace ModulePath

theorem cutLastDot_append {stem ext : List Char} (h : '.' ∉ ext) :
    cutLastDot (stem ++ '.' :: ext) = some (stem, ext) := by
  have hext : ∀ c ∈ ext.reverse, decide (c ≠ '.') = true := fun c hc => by
    rw [decide_eq_true_eq]
    rintro rfl
    exact h (List.mem_reverse.mp hc)
  have hreverse : (stem ++ '.' :: ext).reverse = ext.reverse ++ '.' :: stem.reverse := by simp
  rw [cutLastDot, if_pos (by simp), hreverse]
  simp only [List.dropWhile_append_of_pos hext, List.takeWhile_append_of_pos hext]
  simp

theorem cutLastDot_of_notMem {cs : List Char} (h : '.' ∉ cs) : cutLastDot cs = none := by
  rw [cutLastDot, if_neg (by simpa using h)]

/-- A name with the extension of a source file is cut before it. -/
theorem stem_append {n ext : String} (hn : n ≠ "") (hext : ext ∈ sourceExtensions) :
    stem (n ++ "." ++ ext) = n := by
  have hdot : '.' ∉ ext.toList := by
    simp only [sourceExtensions, List.mem_cons, List.not_mem_nil, or_false] at hext
    obtain rfl | rfl | rfl | rfl := hext <;> decide
  have hcut : cutLastDot (n ++ "." ++ ext).toList = some (n.toList, ext.toList) := by
    rw [String.toList_append, String.toList_append, List.append_assoc]
    exact cutLastDot_append hdot
  have hempty : n.toList.isEmpty = false := by
    rw [← Bool.not_eq_true, List.isEmpty_iff]
    exact fun h => hn (String.toList_eq_nil_iff.mp h)
  have hsource : isSourceExtension ext.toList = true := by
    rw [isSourceExtension, String.ofList_toList, List.contains_iff_mem]
    exact hext
  simp only [stem, hcut, hempty, hsource, Bool.not_false, Bool.and_self, if_true,
    String.ofList_toList]

theorem stem_of_notMem {n : String} (h : '.' ∉ n.toList) : stem n = n := by
  rw [stem, cutLastDot_of_notMem h]

/-- The names that tell a file: an entry file goes by the names of its directory. -/
def dropEntry (names : List String) : List String :=
  if names.getLast? = some entryName then names.dropLast else names

variable {u : Url} {q : Path} {s target : String} {names all : List String}

theorem namesOf_eq (h : u.toFilePath? = some q) : namesOf u = (dropEntry q.names).map stem := by
  simp only [namesOf, h, dropEntry]

theorem isSuffix_dropEntry (h : names <:+ all) (hne : names ≠ []) :
    dropEntry names <:+ dropEntry all := by
  obtain ⟨front, rfl⟩ := h
  have hlast : (front ++ names).getLast? = names.getLast? := List.getLast?_append_of_ne_nil _ hne
  rw [dropEntry, dropEntry, hlast]
  split
  · exact ⟨front, (List.dropLast_append_of_ne_nil hne).symm⟩
  · exact ⟨front, rfl⟩

theorem name?_component?_eq_guard (piece : List Char) :
    (component? false piece).bind name? =
      Option.guard (fun n => n ≠ "" && n ≠ "." && n ≠ "..") (String.ofList piece) := by
  unfold component?
  split
  · rfl
  · rfl
  · rfl
  · next hempty hdot hdots =>
    have hne (cs : List Char) (h : piece ≠ cs) : String.ofList piece ≠ String.ofList cs :=
      fun he => h (String.ofList_injective he)
    have hall : (String.ofList piece ≠ "" && String.ofList piece ≠ "." &&
        String.ofList piece ≠ "..") = true := by
      simp only [Bool.and_eq_true, decide_eq_true_eq]
      exact ⟨⟨hne [] hempty, hne ['.'] hdot⟩, hne ['.', '.'] hdots⟩
    rw [Option.guard, if_pos hall]
    rfl

/-- Without backslashes, the names that a path asks for are those of its components. -/
theorem filter_splitAt_eq_names (h : '\\' ∉ s.toList) :
    ((Text.splitAt (fun c => c = '/' || c = '\\') s.toList).map String.ofList).filter
      (fun n => n ≠ "" && n ≠ "." && n ≠ "..") = (Path.mk s).names := by
  have hcut : Text.splitAt (fun c => c = '/' || c = '\\') s.toList = splitSlashes s.toList := by
    refine Text.splitAt_eq_splitSlashes fun c hc => ?_
    have hne : c ≠ '\\' := by rintro rfl; exact h hc
    rw [decide_eq_false hne, Bool.or_false]
  rw [hcut, names_eq, trail, List.filterMap_filterMap, ← List.filterMap_eq_filter, List.filterMap_map]
  exact List.filterMap_congr fun piece _ => (name?_component?_eq_guard piece).symm

/-- The last name of a path that ends in the name of an entry file ends in it. -/
theorem getLast?_names_of_suffix (h : entryName.toList <:+ s.toList) :
    ∃ front, (Path.mk s).names.getLast? = some (front ++ entryName) := by
  obtain ⟨before, hbefore⟩ := h
  have hslash : '/' ∉ entryName.toList := by decide
  obtain ⟨parts, last, -, hsplit⟩ := splitSlashes_append (a := before) hslash
  have hname : (component? false (last ++ entryName.toList)).bind name? =
      some (String.ofList last ++ entryName) := by
    have hlong {short : String} (h : short.toList.length < 11) :
        String.ofList (last ++ entryName.toList) ≠ short := by
      rintro rfl
      rw [String.toList_ofList, List.length_append] at h
      have : entryName.toList.length = 11 := rfl
      omega
    rw [name?_component?_eq_guard, Option.guard, if_pos, String.ofList_append, String.ofList_toList]
    simp only [Bool.and_eq_true, decide_eq_true_eq]
    exact ⟨⟨hlong (by decide), hlong (by decide)⟩, hlong (by decide)⟩
  refine ⟨String.ofList last, ?_⟩
  rw [names_eq, trail, List.filterMap_filterMap, ← hbefore, hsplit, List.filterMap_append,
    List.filterMap_cons, hname]
  simp

theorem stem_append_entryName (front : String) : stem (front ++ entryName) = front ++ "module" := by
  have hsplit : front ++ entryName = front ++ "module" ++ "." ++ "pmod" := by
    rw [String.append_assoc, String.append_assoc]
    rfl
  rw [hsplit]
  refine stem_append (fun hempty => ?_) (by decide)
  have hlength := congrArg String.length hempty
  rw [String.length_append] at hlength
  exact absurd (Nat.add_eq_zero_iff.mp hlength).2 (by decide)

/-- How a path must be written, so that its names alone tell the file: with pairs of dots before all
names only, and with another name before that of an entry file, which stands at the very end. -/
structure IsStraight (s : String) : Prop where
  slashes : '\\' ∉ s.toList
  descends : ∃ n, (Path.mk s).trail = List.replicate n .parent ++ (Path.mk s).names.map .name
  named : (Path.mk s).names ≠ []
  entry : (Path.mk s).names.getLast? = some entryName →
    2 ≤ (Path.mk s).names.length ∧ entryName.toList <:+ s.toList

/-- A path that is written so asks for its names. -/
theorem IsStraight.wanted? (h : IsStraight s) (hs : unquote target = s) (hlike : isPathLike s = true) :
    wanted? target = some ((dropEntry (Path.mk s).names).map stem) := by
  have hnames := filter_splitAt_eq_names h.slashes
  have hfull : (Path.mk s).names.any (· = "") = false := by
    rw [← hnames, List.any_eq_false]
    intro n hn
    have hname : (n ≠ "" ∧ n ≠ ".") ∧ n ≠ ".." := by simpa using List.of_mem_filter hn
    simpa using hname.1.1
  have hstem : stem entryName = "module" := stem_append_entryName ""
  -- the two tests together say that the last name is that of an entry file
  have hlast : ((Path.mk s).names.map stem).getLast? = some "module" ∧
      entryName.toList.isSuffixOf s.toList = true ↔ (Path.mk s).names.getLast? = some entryName := by
    rw [List.getLast?_map, List.isSuffixOf_iff_suffix]
    constructor
    · rintro ⟨hmodule, hsuffix⟩
      obtain ⟨front, hfront⟩ := getLast?_names_of_suffix hsuffix
      rw [hfront, Option.map_some, stem_append_entryName, Option.some_inj] at hmodule
      have hnone : front.toList = [] := List.append_left_eq_self.mp (by
        rw [← String.toList_append, hmodule])
      rw [hfront, String.toList_eq_nil_iff.mp hnone, String.empty_append]
    · intro hentry
      exact ⟨by rw [hentry, Option.map_some, hstem], (h.entry hentry).2⟩
  have hraw : ¬ ((Path.mk s).names.isEmpty ∨ (Path.mk s).names.any (· = "")) := by
    rw [hfull, List.isEmpty_iff]
    simpa using h.named
  simp only [ModulePath.wanted?, hs, hlike, if_true, hnames, if_neg hraw, hlast]
  have hdrop : (if (Path.mk s).names.getLast? = some entryName
      then ((Path.mk s).names.map stem).dropLast else (Path.mk s).names.map stem) =
      (dropEntry (Path.mk s).names).map stem := by
    rw [dropEntry]
    split
    · rw [List.map_dropLast]
    · rfl
  have hne : ¬ ((dropEntry (Path.mk s).names).map stem).isEmpty := by
    rw [List.isEmpty_iff, List.map_eq_nil_iff, dropEntry]
    split
    · next hentry =>
      have hlength := (h.entry hentry).1
      intro hnone
      have hzero := congrArg List.length hnone
      rw [List.length_dropLast, List.length_nil] at hzero
      omega
    · exact h.named
  rw [hdrop, if_neg hne]

/-- Without slashes and without the extension of a source file, a target is a dotted name. -/
theorem of_not_isPathLike (h : isPathLike s = false) :
    '/' ∉ s.toList ∧ ¬ entryName.toList <:+ s.toList := by
  simp only [isPathLike, Bool.or_eq_false_iff] at h
  obtain ⟨⟨hslash, -⟩, hext⟩ := h
  refine ⟨by simpa using hslash, ?_⟩
  rintro ⟨before, hbefore⟩
  have hcut : cutLastDot s.toList = some (before ++ "module".toList, "pmod".toList) := by
    rw [← hbefore]
    have hentry : entryName.toList = "module".toList ++ '.' :: "pmod".toList := rfl
    rw [hentry, ← List.append_assoc]
    exact cutLastDot_append (by decide)
  rw [hcut] at hext
  cases hext

/-- A part of a dotted name: it is not empty, and no dot or slash is in it. -/
structure IsPart (n : String) : Prop where
  full : n ≠ ""
  dots : '.' ∉ n.toList
  slashes : '/' ∉ n.toList

theorem isPart_of_mem (h : isPathLike s = false) (hfull : (dotted s).contains "" = false) {n : String}
    (hn : n ∈ dotted s) : IsPart n := by
  obtain ⟨piece, hpiece, rfl⟩ := List.mem_map.mp hn
  have hchars := Text.of_mem_splitAt hpiece
  refine ⟨?_, fun hdot => ?_, fun hslash => ?_⟩
  · rintro hempty
    rw [hempty] at hn
    rw [← Bool.not_eq_true, List.contains_iff_mem] at hfull
    exact hfull hn
  · rw [String.toList_ofList] at hdot
    simpa using (hchars _ hdot).2
  · rw [String.toList_ofList] at hslash
    exact (of_not_isPathLike h).1 (hchars _ hslash).1

theorem dotted_ne_nil (s : String) : dotted s ≠ [] := fun h =>
  Text.splitAt_ne_nil _ _ (List.map_eq_nil_iff.mp h)

/-- A dotted name asks for its parts. -/
theorem wanted?_dotted (hs : unquote target = s) (hlike : isPathLike s = false)
    (hfull : (dotted s).contains "" = false) : ModulePath.wanted? target = some (dotted s) := by
  have hstems : (dotted s).map stem = dotted s :=
    (List.map_congr_left fun n hn => stem_of_notMem (isPart_of_mem hlike hfull hn).dots).trans
      (List.map_id _)
  have hraw : ¬ ((dotted s).isEmpty ∨ (dotted s).any (· = "")) := by
    rw [List.isEmpty_iff, List.any_eq_true]
    rintro (hnone | ⟨n, hn, hempty⟩)
    · exact dotted_ne_nil s hnone
    · exact (isPart_of_mem hlike hfull hn).full (of_decide_eq_true hempty)
  have hentry : ¬ ((dotted s).getLast? = some "module" ∧
      entryName.toList.isSuffixOf s.toList = true) := by
    rw [List.isSuffixOf_iff_suffix]
    exact fun h => (of_not_isPathLike hlike).2 h.2
  have hne : ¬ (dotted s).isEmpty := by
    rw [List.isEmpty_iff]
    exact dotted_ne_nil s
  simp only [ModulePath.wanted?, hs, hlike, Bool.false_eq_true, if_false, hstems, if_neg hraw,
    if_neg hentry, if_neg hne]

theorem IsPart.stem_pmod {n : String} (h : IsPart n) : stem (n ++ ".pmod") = n := by
  have hsplit : n ++ ".pmod" = n ++ "." ++ "pmod" := by rw [String.append_assoc]; rfl
  rw [hsplit]
  exact stem_append h.full (by decide)

theorem IsPart.stem_pike {n : String} (h : IsPart n) : stem (n ++ ".pike") = n := by
  have hsplit : n ++ ".pike" = n ++ "." ++ "pike" := by rw [String.append_assoc]; rfl
  rw [hsplit]
  exact stem_append h.full (by decide)

/-- A name of more than two characters without slashes is a name in a path. -/
theorem isInner_name {n : String} (hslash : '/' ∉ n.toList) (hlong : 2 < n.toList.length) :
    (Component.name n).IsInner := by
  refine ⟨hslash, ?_⟩
  rw [Component.text]
  unfold component?
  split
  · next h => simp [h] at hlong
  · next h => simp [h] at hlong
  · next h => simp [h] at hlong
  · rw [String.ofList_toList]

theorem IsPart.isInner_append {n ext : String} (h : IsPart n) (hslash : '/' ∉ ext.toList)
    (hlong : 2 < ext.toList.length) : (Component.name (n ++ ext)).IsInner := by
  refine isInner_name ?_ ?_
  · rw [String.toList_append, List.mem_append]
    exact fun hmem => hmem.elim h.slashes hslash
  · rw [String.toList_append, List.length_append]
    omega

end ModulePath

namespace Prober
open ModulePath

variable {p : Prober} {root found current : Path} {parents names : List String} {last target : String}
  {files : FileTree}

theorem names_of_trail {q base : Path} {ns : List String} (h : q.trail = base.trail ++ ns.map .name) :
    q.names = base.names ++ ns := by
  have hnames : (ns.map Component.name).filterMap name? = ns := by
    rw [List.filterMap_map]
    exact List.filterMap_some
  rw [names_eq, names_eq, h, List.filterMap_append, hnames]

/-- Where a module may be found under a root: in a file, or in the entry file of its directory. -/
theorem of_mem_moduleCandidates (hroot : root.isAbsolute) (hparts : ∀ n ∈ parents ++ [last], IsPart n)
    (h : found ∈ moduleCandidates (parents ++ [last]) root) :
    found.isAbsolute ∧ ∃ tail, found.names = root.names ++ parents.map (· ++ ".pmod") ++ tail ∧
      (tail = [last ++ ".pmod"] ∧ (moduleCandidates (parents ++ [last]) root).head? = some found ∨
        tail = [last ++ ".pike"] ∨ tail = [last ++ ".pmod", entryName]) := by
  have hlast := hparts last (List.mem_append_right _ List.mem_cons_self)
  have hpmod : (Component.name (last ++ ".pmod")).IsInner := hlast.isInner_append (by decide) (by decide)
  have hpike : (Component.name (last ++ ".pike")).IsInner := hlast.isInner_append (by decide) (by decide)
  have hentry : (Component.name entryName).IsInner := isInner_name (by decide) (by decide)
  have hfound (tail : List String) (htail : ∀ n ∈ tail, (Component.name n).IsInner)
      (hq : found = tail.foldl (fun (p : Path) n => p.join ⟨n⟩)
        (parents.foldl (fun (p : Path) n => p.join ⟨n ++ ".pmod"⟩) root)) :
      found.isAbsolute ∧ found.names = root.names ++ parents.map (· ++ ".pmod") ++ tail := by
    have hall : ∀ n ∈ parents.map (· ++ ".pmod") ++ tail, (Component.name n).IsInner := by
      intro n hn
      obtain hn | hn := List.mem_append.mp hn
      · obtain ⟨part, hpart, rfl⟩ := List.mem_map.mp hn
        exact (hparts part (List.mem_append_left _ hpart)).isInner_append (by decide) (by decide)
      · exact htail n hn
    obtain ⟨habs, hinner⟩ := trail_foldl_join hroot hall
    rw [List.foldl_append, List.foldl_map, ← hq] at habs hinner
    exact ⟨habs, (names_of_trail hinner).trans (List.append_assoc _ _ _).symm⟩
  simp only [moduleCandidates, List.dropLast_concat, List.getLast?_concat, List.mem_cons,
    List.not_mem_nil, or_false] at h ⊢
  obtain h | h | h := h
  · obtain ⟨habs, hnames⟩ := hfound [last ++ ".pmod"] (by simpa using hpmod) h
    exact ⟨habs, _, hnames, .inl ⟨rfl, congrArg some h.symm⟩⟩
  · obtain ⟨habs, hnames⟩ := hfound [last ++ ".pike"] (by simpa using hpike) h
    exact ⟨habs, _, hnames, .inr (.inl rfl)⟩
  · obtain ⟨habs, hnames⟩ := hfound [last ++ ".pmod", entryName]
      (by simpa using ⟨hpmod, hentry⟩) h
    exact ⟨habs, _, hnames, .inr (.inr rfl)⟩

/-- The parts of a dotted name end the names that tell the file that is found for it, unless it is an
entry file that is taken for a module of its own. -/
theorem isSuffix_of_mem_moduleCandidates (hroot : root.isAbsolute)
    (hparts : ∀ n ∈ parents ++ [last], IsPart n) (h : found ∈ moduleCandidates (parents ++ [last]) root)
    (hmodule : last = "module" → (moduleCandidates (parents ++ [last]) root).head? ≠ some found) :
    parents ++ [last] <:+ (dropEntry found.names).map stem := by
  obtain ⟨-, tail, hnames, htail⟩ := of_mem_moduleCandidates hroot hparts h
  have hlast := hparts last (List.mem_append_right _ List.mem_cons_self)
  have hstems : (parents.map (· ++ ".pmod")).map stem = parents := by
    rw [List.map_map]
    refine (List.map_congr_left fun n hn => ?_).trans (List.map_id _)
    exact (hparts n (List.mem_append_left _ hn)).stem_pmod
  have hplain {name : String} (hname : name ≠ entryName) (hstem : stem name = last)
      (hall : found.names = root.names ++ parents.map (· ++ ".pmod") ++ [name]) :
      parents ++ [last] <:+ (dropEntry found.names).map stem := by
    rw [dropEntry, hall, List.getLast?_concat, if_neg fun h => hname (Option.some.inj h), List.map_append,
      List.map_append, hstems, List.map_singleton, hstem, List.append_assoc]
    exact List.suffix_append _ _
  obtain ⟨rfl, hhead⟩ | rfl | rfl := htail
  · refine hplain (fun hentry => hmodule ?_ hhead) hlast.stem_pmod hnames
    have hchars := congrArg String.toList hentry
    rw [String.toList_append] at hchars
    exact String.toList_injective (List.append_cancel_right (hchars.trans rfl))
  · refine hplain (fun hentry => ?_) hlast.stem_pike hnames
    have hchars := congrArg (fun n : String => n.toList.getLast?) hentry
    simp only [String.toList_append] at hchars
    rw [List.getLast?_append_of_ne_nil _ (by decide)] at hchars
    exact absurd hchars (by decide)
  · have hdrop : dropEntry found.names = root.names ++ parents.map (· ++ ".pmod") ++ [last ++ ".pmod"] := by
      have hsplit : [last ++ ".pmod", entryName] = [last ++ ".pmod"] ++ [entryName] := rfl
      rw [dropEntry, hnames, hsplit, ← List.append_assoc, List.getLast?_concat, if_pos rfl,
        List.dropLast_concat]
    rw [hdrop, List.map_append, List.map_append, hstems, List.map_singleton, hlast.stem_pmod,
      List.append_assoc]
    exact List.suffix_append _ _

/-- Whence the file of an inherit target comes: a path is joined to the directory or to a root, a dotted
name is looked for under them. -/
theorem of_resolve (h : p.resolve files .inheritProgram target current = some found) :
    ∃ directory, current.parent = some directory ∧
      (isPathLike (unquote target) = true ∧ (∃ base ∈ directory :: p.moduleRoots,
          found = (base.join ⟨unquote target⟩).normalize) ∨
        isPathLike (unquote target) = false ∧ (dotted (unquote target)).contains "" = false ∧
          ∃ root ∈ directory :: p.moduleRoots,
            found ∈ moduleCandidates (dotted (unquote target)) root) := by
  have hkind : ¬ (ImportKind.inheritProgram = .includeFile) := by decide
  unfold resolve at h
  dsimp only at h
  split at h
  · cases h
  obtain ⟨directory, hdirectory, h⟩ := Option.bind_eq_some_iff.mp h
  obtain ⟨first, hfirst, hfound⟩ := Option.bind_eq_some_iff.mp h
  simp only [hkind, false_or] at hfound
  refine ⟨directory, hdirectory, ?_⟩
  replace hfirst := List.mem_of_find?_eq_some hfirst
  simp only [candidates, hkind, false_or, if_false] at hfirst
  -- a path is joined to a directory; a dotted name is looked for under each of them
  cases hlike : isPathLike (unquote target) with
  | true =>
    refine .inl ⟨rfl, ?_⟩
    cases habs : isAbsolute ⟨unquote target⟩ with
    | true =>
      simp only [hlike, habs, and_self, if_true, List.mem_singleton] at hfirst hfound
      refine ⟨directory, List.mem_cons_self, ?_⟩
      rw [join, if_pos habs, ← hfirst]
      exact (Option.some.inj hfound).symm
    | false =>
      simp only [hlike, habs, and_false, if_true, if_false, Bool.false_eq_true] at hfirst hfound
      obtain ⟨base, hbase, hfirst⟩ := List.mem_map.mp hfirst
      exact ⟨base, hbase, (hfirst.trans (Option.some.inj hfound)).symm⟩
  | false =>
    refine .inr ⟨rfl, ?_⟩
    simp only [hlike, false_and, if_false, Bool.false_eq_true] at hfirst hfound
    cases hfull : (dotted (unquote target)).contains "" with
    | true => simp only [hfull, if_true, List.not_mem_nil] at hfirst
    | false =>
      simp only [hfull, if_false, Bool.false_eq_true] at hfirst
      obtain ⟨root, hroot, hmem⟩ := List.mem_flatMap.mp hfirst
      exact ⟨rfl, root, hroot, Option.some.inj hfound ▸ hmem⟩

/-- A target alone tells the file that is found for it: it is a path that is written so, or a dotted
name that does not ask for an entry file by the name `module`. -/
structure Tells (p : Prober) (s : String) (current found : Path) : Prop where
  path : isPathLike s = true → IsStraight s
  name : isPathLike s = false → (dotted s).getLast? = some "module" →
    ∀ directory, current.parent = some directory → ∀ root ∈ directory :: p.moduleRoots,
      (moduleCandidates (dotted s) root).head? ≠ some found

/-- A path follows the directory that it is joined to, unless it stands for itself. -/
theorem exists_trail_join {base q : Path} (hbase : base.isAbsolute) :
    (base.join q).isAbsolute ∧ ∃ above, (base.join q).trail = above ++ q.trail := by
  cases habs : q.isAbsolute with
  | true =>
    rw [join, if_pos habs]
    exact ⟨habs, [], rfl⟩
  | false =>
    obtain ⟨hjoin, hinner⟩ := trail_join hbase habs
    exact ⟨hjoin, base.trail, hinner⟩

/-- The file that is found is absolute, and what the target asks for ends the names that tell it. -/
theorem isSuffix_of_resolve (hcurrent : current.isAbsolute)
    (hroots : ∀ root ∈ p.moduleRoots, root.isAbsolute)
    (h : p.resolve files .inheritProgram target current = some found) :
    found.isAbsolute ∧ (p.Tells (unquote target) current found →
      ∃ names, wanted? target = some names ∧ names <:+ (dropEntry found.names).map stem) := by
  obtain ⟨directory, hdirectory, hfound⟩ := of_resolve h
  have hbase : ∀ base ∈ directory :: p.moduleRoots, base.isAbsolute :=
    List.forall_mem_cons.mpr ⟨isAbsolute_parent hcurrent hdirectory, hroots⟩
  generalize hs : unquote target = s at hfound ⊢
  obtain ⟨hlike, base, hmem, hfound⟩ | ⟨hlike, hfull, root, hmem, hfound⟩ := hfound
  · obtain ⟨habs, above, hinner⟩ := exists_trail_join (q := ⟨s⟩) (hbase base hmem)
    obtain ⟨-, -, hnormal, -⟩ := normalize_spec habs
    refine ⟨hfound ▸ hnormal, fun htells => ?_⟩
    have hstraight := htells.path hlike
    obtain ⟨n, hdescends⟩ := hstraight.descends
    rw [hdescends, ← List.append_assoc] at hinner
    have hends : (Path.mk s).names <:+ found.names := hfound ▸ names_normalize habs hinner
    exact ⟨_, hstraight.wanted? hs hlike, (isSuffix_dropEntry hends hstraight.named).map _⟩
  · obtain ⟨parents, last, hdotted⟩ : ∃ parents last, dotted s = parents ++ [last] :=
      ⟨_, _, (List.dropLast_append_getLast (dotted_ne_nil s)).symm⟩
    have hparts : ∀ n ∈ parents ++ [last], IsPart n := fun n hn =>
      isPart_of_mem hlike hfull (hdotted ▸ hn)
    have hwanted := wanted?_dotted hs hlike hfull
    rw [hdotted] at hfound hwanted
    refine ⟨(of_mem_moduleCandidates (hbase root hmem) hparts hfound).1, fun htells => ?_⟩
    refine ⟨_, hwanted, isSuffix_of_mem_moduleCandidates (hbase root hmem) hparts hfound ?_⟩
    have hname := htells.name hlike
    rw [hdotted, List.getLast?_concat, Option.some_inj] at hname
    exact fun hmodule => hname hmodule directory hdirectory root hmem

theorem isMatch_iff {u : Url} (h : wanted? target = some names) :
    isMatch target u = true ↔ names <:+ namesOf u := by
  unfold isMatch
  rw [h]
  exact List.isSuffixOf_iff_suffix

theorem find?_singleton_iff {u : Url} :
    ModulePath.find? target [u] = some u ↔ isMatch target u = true := by
  rw [ModulePath.find?, List.find?_singleton, Option.ite_none_right_eq_some]
  exact and_iff_left rfl

/-- A file that is found for an inherit target has a URL, and the target names the document of this URL
where it tells the file by its names alone. An entry file is named by what names its directory. -/
theorem find?_of_resolve (hcurrent : current.isAbsolute)
    (hroots : ∀ root ∈ p.moduleRoots, root.isAbsolute)
    (h : p.resolve files .inheritProgram target current = some found) :
    ∃ u, Url.ofFilePath? found = some u ∧
      (p.Tells (unquote target) current found →
        ModulePath.find? target [u] = some u ∧ Knowledge.names target (.program u) = true) ∧
      (found.names.getLast? = some entryName → ∀ names, wanted? target = some names →
        (ModulePath.find? target [u] = some u ↔ names <:+ found.names.dropLast.map stem)) := by
  obtain ⟨habs, hsuffix⟩ := isSuffix_of_resolve hcurrent hroots h
  obtain ⟨u, q, hu, hq, hinner⟩ := Url.toFilePath?_of_isAbsolute habs
  have hnames : namesOf u = (dropEntry found.names).map stem := by
    rw [namesOf_eq hq, names_eq, hinner, ← names_eq]
  refine ⟨u, hu, fun htells => ?_, fun hentry names hwanted => ?_⟩
  · obtain ⟨names, hwanted, hends⟩ := hsuffix htells
    have hmatches := (isMatch_iff hwanted).mpr (hnames ▸ hends)
    exact ⟨find?_singleton_iff.mpr hmatches, hmatches⟩
  · rw [find?_singleton_iff, isMatch_iff hwanted, hnames, dropEntry, if_pos hentry]

section Found

/-- A program beside the sources, and a module with an entry file. -/
def library : FileTree :=
  [Path.mk "/w/lib/shared.pike", ⟨"/w/Net.pmod/module.pmod"⟩, ⟨"/w/Net.pmod/Url.pike"⟩].foldl
    (fun t path => t.write path (.file [] 0)) .empty

def entryUrl : Url := ⟨"file", some "", "/w/Net.pmod/module.pmod", none, none⟩

/-- In its own directory the entry file is found for the name `module`, but it goes by the name of the
directory. -/
theorem not_find?_entry :
    (Prober.mk [] []).resolve library .inheritProgram "module" ⟨"/w/Net.pmod/a.pike"⟩ =
      some ⟨"/w/Net.pmod/module.pmod"⟩ ∧
    Url.ofFilePath? ⟨"/w/Net.pmod/module.pmod"⟩ = some entryUrl ∧
    ModulePath.find? "module" [entryUrl] = none ∧ ModulePath.find? "Net" [entryUrl] = some entryUrl := by
  decide +kernel

/-- A program is found beside the directory of the sources, and a part of a module under a root. -/
theorem find?_of_resolve_library :
    (∃ u, Url.ofFilePath? ⟨"/w/lib/shared.pike"⟩ = some u ∧
      ModulePath.find? "\"../lib/./shared.pike\"" [u] = some u) ∧
    ∃ u, Url.ofFilePath? ⟨"/w/Net.pmod/Url.pike"⟩ = some u ∧
      ModulePath.find? "Net.Url" [u] = some u := by
  have hroots : ∀ root ∈ (Prober.mk [] [⟨"/w"⟩]).moduleRoots, root.isAbsolute :=
    List.forall_mem_singleton.mpr (by decide)
  have hstraight : IsStraight "../lib/./shared.pike" :=
    ⟨by decide, ⟨1, by decide +kernel⟩, by decide +kernel, by decide +kernel⟩
  constructor
  · have hresolve : (Prober.mk [] [⟨"/w"⟩]).resolve library .inheritProgram
        "\"../lib/./shared.pike\"" ⟨"/w/src/main.pike"⟩ = some ⟨"/w/lib/shared.pike"⟩ := by
      decide +kernel
    obtain ⟨u, hu, hfind, -⟩ := find?_of_resolve (by decide) hroots hresolve
    have hunquote : unquote "\"../lib/./shared.pike\"" = "../lib/./shared.pike" := by decide +kernel
    refine ⟨u, hu, (hfind ?_).1⟩
    rw [hunquote]
    exact ⟨fun _ => hstraight, fun hlike => absurd hlike (by decide +kernel)⟩
  · have hresolve : (Prober.mk [] [⟨"/w"⟩]).resolve library .inheritProgram "Net.Url"
        ⟨"/w/src/main.pike"⟩ = some ⟨"/w/Net.pmod/Url.pike"⟩ := by decide +kernel
    obtain ⟨u, hu, hfind, -⟩ := find?_of_resolve (by decide) hroots hresolve
    have hunquote : unquote "Net.Url" = "Net.Url" := by decide +kernel
    refine ⟨u, hu, (hfind ?_).1⟩
    rw [hunquote]
    exact ⟨fun hlike => absurd hlike (by decide +kernel), fun _ hlast => absurd hlast (by decide +kernel)⟩

end Found
end Prober
end LanguageServer
