import LanguageServer.Main
import LanguageServer.Proofs.Import.Folding

/-! The path on the command line stays in the working directory. An accepted path has no pair of dots,
so that on the way along it, in its text as in the tree of files, only names are added to the directory;
a refused one ends the program before a file is looked at. -/
namespace LanguageServer
open LanguageServer.Path

namespace Path

variable {p directory : Path} {ns : List String}

/-- A dot where a relative path begins is all that its components have more than its trail. -/
theorem components_of_relative (h : p.isAbsolute = false) :
    p.components = p.trail ∨ p.components = .here :: p.trail := by
  obtain ⟨first, rest, hsplit⟩ := List.exists_cons_of_ne_nil (splitSlashes_ne_nil p.text.toList)
  rw [components, trail, hsplit]
  simp only [h, Bool.false_eq_true, if_false, List.filterMap_cons]
  by_cases hdot : first = ['.']
  · rw [hdot]
    exact .inr rfl
  · have hfirst : component? true first = component? false first := by
      unfold component?
      split <;> first | rfl | exact absurd rfl hdot
    rw [hfirst]
    cases component? false first <;> exact .inl rfl

/-- Without pairs of dots a trail is the names of the path. -/
theorem trail_eq_names (h : .parent ∉ p.trail) : p.trail = p.names.map .name := by
  have hname : ∀ c ∈ p.trail, (Component.name? c).map Component.name = some c := by
    intro c hc
    cases c with
    | root => cases (isInner_of_mem hc).read
    | here => cases (isInner_of_mem hc).read
    | parent => exact absurd hc h
    | name n => rfl
  rw [names_eq, List.map_filterMap, List.filterMap_congr hname, List.filterMap_some]

theorem course_of_trail (h : p.trail = ns.map .name) : p.course = ⟨0, ns.reverse⟩ := by
  suffices hrun : ∀ below, (ns.map Component.name).foldl Course.step ⟨0, below⟩ =
      ⟨0, ns.reverse ++ below⟩ by rw [course, h, courseOf, hrun, List.append_nil]
  clear h
  induction ns with
  | nil => exact fun _ => rfl
  | cons n ns ih =>
    intro below
    rw [List.map_cons, List.foldl_cons, List.reverse_cons, List.append_assoc]
    exact ih (n :: below)

/-- The folded path has the folded components. -/
theorem components_normalize (h : p.isAbsolute) : p.normalize.components = fold p.components := by
  obtain ⟨ns, hfold, habs, htrail⟩ := normalize_spec h
  rw [components_of_isAbsolute habs, htrail, hfold]

/-- There is nothing to fold in an absolute path without pairs of dots. -/
theorem fold_components_eq_self (h : p.isAbsolute) (hdots : .parent ∉ p.trail) :
    fold p.components = p.components := by
  rw [components_of_isAbsolute h, trail_eq_names hdots]
  exact fold_append_names [.root] p.names

section Join

variable (hdirectory : directory.isAbsolute) (hrelative : p.isAbsolute = false)
  (hdots : .parent ∉ p.trail)
include hdirectory hrelative hdots

theorem components_join :
    (directory.join p).components = directory.components ++ p.names.map .name := by
  obtain ⟨habs, htrail⟩ := trail_join hdirectory hrelative
  rw [components_of_isAbsolute habs, htrail, components_of_isAbsolute hdirectory,
    trail_eq_names hdots, List.cons_append]

theorem fold_join :
    fold (directory.join p).components = fold directory.components ++ p.names.map .name := by
  rw [components_join hdirectory hrelative hdots, fold_append_names]

/-- However much of the path is folded, what comes out is in the directory. -/
theorem fold_prefix_of_front {front : List Component} (hfront : directory.components <+: front)
    (hpath : front <+: (directory.join p).components) :
    fold directory.components <+: fold front := by
  obtain ⟨more, rfl⟩ := hfront
  rw [components_join hdirectory hrelative hdots, List.prefix_append_right_inj] at hpath
  have hmore : more = (p.names.take more.length).map .name := by
    rw [List.map_take]
    exact List.prefix_iff_eq_take.mp hpath
  rw [hmore, fold_append_names]
  exact List.prefix_append ..

end Join

end Path

namespace FileTree

variable {t t' : FileTree} {p : Path} {base at_ next : Place} {piece : List Char}
  {pieces : List (List Char)} {text : String}

/-- Two trees hold the same at a place and below it. -/
def AgreesBelow (t t' : FileTree) (base : Place) : Prop :=
  ∀ at_, base <+: at_ → t.entry? at_ = t'.entry? at_

theorem AgreesBelow.isDirectoryAt (h : t.AgreesBelow t' base) (hat : base <+: at_) :
    t.isDirectoryAt at_ = t'.isDirectoryAt at_ := by
  rw [FileTree.isDirectoryAt, h at_ hat, FileTree.isDirectoryAt]

/-- A step from a place below another depends on nothing else. -/
theorem AgreesBelow.enter (h : t.AgreesBelow t' base) (hat : base <+: at_) (piece : List Char) :
    t.enter at_ piece = t'.enter at_ piece := by
  unfold FileTree.enter
  rw [h.isDirectoryAt hat]
  split
  · split
    · rfl
    · rfl
    · rfl
    · dsimp only
      rw [h _ (hat.trans (List.prefix_append ..))]
  · rfl

theorem AgreesBelow.step (h : t.AgreesBelow t' base) (hat : base <+: at_) (piece : List Char) :
    t.step at_ piece = t'.step at_ piece := by
  rw [FileTree.step, h.isDirectoryAt hat, h.enter hat, FileTree.step]

/-- A step that is no step up leads on below the place. -/
theorem prefix_of_enter (hpiece : piece ≠ ['.', '.']) (h : t.enter at_ piece = some next) :
    at_ <+: next := by
  obtain ⟨-, ⟨-, rfl⟩ | ⟨hparent, -⟩ | ⟨-, rfl⟩⟩ := enter_cases h
  · exact List.prefix_rfl
  · exact absurd (component?_eq_some hparent).symm hpiece
  · exact List.prefix_append ..

theorem enter_of_step (h : t.step at_ piece = .ok next) : t.enter at_ piece = some next := by
  unfold step at h
  split at h
  · cases h
  · split at h
    · cases h
    · split at h
      · next hnext => exact hnext.trans (congrArg some (Except.ok.inj h))
      · cases h

theorem follow_of_steps (h : pieces.foldlM t.step at_ = .ok next) : t.follow at_ pieces = some next := by
  induction pieces generalizing at_ with
  | nil => exact congrArg some (Except.ok.inj h)
  | cons piece pieces ih =>
    rw [List.foldlM_cons] at h
    cases hstep : t.step at_ piece with
    | error f => rw [hstep] at h; cases h
    | ok mid =>
      rw [hstep] at h
      exact Option.bind_eq_some_iff.mpr ⟨mid, enter_of_step hstep, ih h⟩

section Below

variable (h : t.AgreesBelow t' base) (hpieces : ['.', '.'] ∉ pieces) (hat : base <+: at_)
include h hpieces hat

/-- A walk without steps up depends on nothing but what is below the place where it begins. -/
theorem AgreesBelow.follow : t.follow at_ pieces = t'.follow at_ pieces := by
  -- each step leads on to a place below, where both trees still hold the same
  induction pieces generalizing at_ with
  | nil => rfl
  | cons piece pieces ih =>
    rw [List.mem_cons, not_or] at hpieces
    rw [FileTree.follow, FileTree.follow, List.foldlM_cons, List.foldlM_cons, ← h.enter hat]
    cases henter : t.enter at_ piece with
    | none => rfl
    | some mid => exact ih hpieces.2 (hat.trans (prefix_of_enter (Ne.symm hpieces.1) henter))

theorem AgreesBelow.steps : pieces.foldlM t.step at_ = pieces.foldlM t'.step at_ := by
  induction pieces generalizing at_ with
  | nil => rfl
  | cons piece pieces ih =>
    rw [List.mem_cons, not_or] at hpieces
    rw [List.foldlM_cons, List.foldlM_cons, ← h.step hat]
    cases hstep : t.step at_ piece with
    | error f => rfl
    | ok mid => exact ih hpieces.2 (hat.trans (prefix_of_enter (Ne.symm hpieces.1) (enter_of_step hstep)))

end Below

/-- Why no file is looked for at a path. -/
def fault? (p : Path) : Option ReadFault :=
  if p.text.toList.contains '\x00' then some .holdsZero
  else if p.text.isEmpty then some .missing
  else if longestPath < p.text.utf8ByteSize then some .nameTooLong
  else none

/-- What is read where an entry stands. -/
def textOf : Option Entry → Except ReadFault String
  | some (.file bytes _) => match Text.Utf8.text? bytes with
    | some text => .ok text
    | none => .error .notText
  | some .directory => .error .isDirectory
  | _ => .error .notText

/-- A file is read where the steps along its path end. -/
theorem read_eq (t : FileTree) (p : Path) : t.read p = match fault? p with
    | some f => .error f
    | none => match (splitSlashes p.text.toList).foldlM t.step (t.start p) with
      | .error f => .error f
      | .ok at_ => textOf (t.entry? at_) := by
  unfold read fault?
  by_cases hzero : p.text.toList.contains '\x00'
  · simp only [if_pos hzero]
    rfl
  by_cases hempty : p.text.isEmpty
  · simp only [if_neg hzero, if_pos hempty]
    rfl
  by_cases hlong : longestPath < p.text.utf8ByteSize
  · simp only [if_neg hzero, if_neg hempty, if_pos hlong]
    rfl
  simp only [if_neg hzero, if_neg hempty, if_neg hlong, start]
  cases (splitSlashes p.text.toList).foldlM t.step (if p.isAbsolute then [] else t.working) with
  | error f => rfl
  | ok at_ => rfl

theorem dots_notMem_pieces (hdots : .parent ∉ p.trail) : ['.', '.'] ∉ splitSlashes p.text.toList :=
  fun h => hdots (List.mem_filterMap.mpr ⟨_, h, rfl⟩)

theorem start_of_relative (hrelative : p.isAbsolute = false) : t.start p = t.working := by
  rw [start, hrelative, if_neg Bool.false_ne_true]

section Relative

variable (hrelative : p.isAbsolute = false) (hdots : .parent ∉ p.trail)
include hrelative hdots

/-- What a relative path without pairs of dots leads to is named by it below the working directory. -/
theorem eq_of_lead? (h : t.lead? p = some at_) : at_ = t.working ++ p.names := by
  have hcourse : p.course = ⟨0, p.names.reverse⟩ := course_of_trail (trail_eq_names hdots)
  have hnames := eq_of_follow_names (fun _ => isInner_of_mem_below) (follow_of_lead? h)
  rw [hnames, hcourse, List.reverse_reverse, above, Nat.sub_zero, List.take_length,
    start_of_relative hrelative]

theorem eq_of_locate? (h : t.locate? p = some at_) : at_ = t.working ++ p.names := by
  rw [locate?_eq] at h
  split at h
  · exact eq_of_lead? hrelative hdots h
  · cases h

/-- The text that is read is that of the file that the path names below the working directory. -/
theorem file_of_read (h : t.read p = .ok text) : ∃ bytes modified,
    t.entry? (t.working ++ p.names) = some (.file bytes modified) ∧
      Text.Utf8.text? bytes = some text := by
  rw [read_eq] at h
  split at h
  · cases h
  · split at h
    · cases h
    · next at_ hsteps =>
      rw [← eq_of_lead? hrelative hdots (follow_of_steps hsteps)]
      unfold textOf at h
      split at h
      · next bytes modified hentry =>
        split at h
        · next htext => exact ⟨bytes, modified, hentry, htext.trans (congrArg some (Except.ok.inj h))⟩
        · cases h
      · cases h
      · cases h

variable (hworking : t.working = t'.working) (hagree : t.AgreesBelow t' t.working)
include hworking hagree

theorem canonical?_congr : t.canonical? p = t'.canonical? p := by
  have hlead : t.lead? p = t'.lead? p := by
    rw [lead?, lead?, start_of_relative hrelative, start_of_relative hrelative, ← hworking]
    exact hagree.follow (dots_notMem_pieces hdots) List.prefix_rfl
  rw [canonical?, canonical?, locate?_eq, locate?_eq, hlead]

theorem read_congr : t.read p = t'.read p := by
  have hsteps := hagree.steps (dots_notMem_pieces hdots) List.prefix_rfl
  rw [read_eq, read_eq, start_of_relative hrelative, start_of_relative hrelative, ← hworking, ← hsteps]
  cases hplace : (splitSlashes p.text.toList).foldlM t.step t.working with
  | error f => rfl
  | ok at_ =>
    rw [← start_of_relative hrelative] at hplace
    have hat := eq_of_lead? hrelative hdots (follow_of_steps hplace)
    dsimp only
    rw [hagree at_ (hat ▸ List.prefix_append ..)]

end Relative

end FileTree

namespace CommandLine

variable {path : String} {args before after options : List String} {files : FileTree}

/-- What an accepted path is: below any absolute directory it is a path of the directory. -/
structure Confined (path : String) : Prop where
  /-- Folded, the directory stays in front, and only names come after it. -/
  folded : ∀ directory : Path, directory.isAbsolute →
    fold (directory.join ⟨path⟩).components =
      fold directory.components ++ (Path.mk path).names.map .name
  /-- Wherever folding stops behind the directory, it is in the directory. -/
  inside : ∀ directory : Path, directory.isAbsolute → ∀ front, directory.components <+: front →
    front <+: (directory.join ⟨path⟩).components → fold directory.components <+: fold front
  /-- The folded path begins with the components of a directory that has no pairs of dots itself. -/
  below : ∀ directory : Path, directory.isAbsolute → .parent ∉ directory.components →
    (directory.join ⟨path⟩).normalize.startsWith directory
  /-- In a tree of files the path leads to what it names below the working directory. -/
  place : ∀ (files : FileTree) at_, files.locate? ⟨path⟩ = some at_ →
    at_ = files.working ++ (Path.mk path).names
  /-- The text to be analysed is that of the file there. -/
  read : ∀ (files : FileTree) text, content files path = .ok text → ∃ bytes modified,
    files.entry? (files.working ++ (Path.mk path).names) = some (.file bytes modified) ∧
      Text.Utf8.text? bytes = some text
  /-- Nothing outside the working directory is looked at. -/
  unseen : ∀ files files' : FileTree, files.working = files'.working →
    files.AgreesBelow files' files.working →
    content files path = content files' path ∧ target files path = target files' path

/-- An argument that is no path. -/
def IsOption (argument : String) : Prop := "--".toList <+: argument.toList

/-- The path that arguments name: the first one after the word for an analysis that is no option. -/
def Names (args : List String) (path : String) : Prop :=
  ∃ before options after, args = before ++ "--analyze" :: (options ++ path :: after) ∧
    "--analyze" ∉ before ∧ (∀ option ∈ options, IsOption option) ∧ ¬ IsOption path

/-- The program ends in its first move with a message, and the server is as it was. -/
def EndsAtOnce (args : List String) (message : String) : Prop :=
  ∀ (now : Instant) (e : Machine.Effects Server),
    Machine.advance now (perform args) e = (e, .done (.error message))

/-- What comes of a path that is not accepted: whatever files there are, none is read. -/
structure Refused (path : String) : Prop where
  content : ∀ files, content files path = .error ("Unsafe file path: " ++ path)
  target : ∀ files, target files path = .error ("Unsafe file path: " ++ path)
  named : ∀ args, Names args path → EndsAtOnce args ("Unsafe file path: " ++ path)
  /-- Not even the program around takes a look. -/
  unread : ∀ args, Names args path → treeFor args = pure .empty
  /-- As an option it names nothing. -/
  option : IsOption path → ∀ before options, "--analyze" ∉ before →
    (∀ option ∈ options, IsOption option) →
      EndsAtOnce (before ++ "--analyze" :: (options ++ [path])) usage

theorem of_isSafe (h : isSafe path) :
    (Path.mk path).isAbsolute = false ∧ .parent ∉ (Path.mk path).trail := by
  simp only [isSafe, Bool.and_eq_true, Bool.not_eq_true'] at h
  obtain ⟨⟨⟨⟨-, hrelative⟩, hdots⟩, -⟩, -⟩ := h
  refine ⟨hrelative, fun hmem => ?_⟩
  have hmem' : .parent ∈ (Path.mk path).components := by
    obtain heq | heq := components_of_relative hrelative
    · rwa [heq]
    · rw [heq]
      exact List.mem_cons_of_mem _ hmem
  rw [List.contains_iff_mem.mpr hmem'] at hdots
  cases hdots

theorem content_of_isSafe (h : isSafe path) : content files path = match files.read ⟨path⟩ with
    | .error f => .error ("Failed to read file '" ++ path ++ "': " ++ f.message)
    | .ok text => .ok text := by
  simp only [content, h, Bool.not_true, Bool.false_eq_true, if_false]
  rfl

theorem confined (h : isSafe path) : Confined path := by
  obtain ⟨hrelative, hdots⟩ := of_isSafe h
  refine ⟨fun directory hdir => fold_join hdir hrelative hdots,
    fun directory hdir front => fold_prefix_of_front hdir hrelative hdots,
    fun directory hdir hplain => ?_, fun files at_ => FileTree.eq_of_locate? hrelative hdots,
    fun files text hread => ?_, fun files files' hworking hagree => ?_⟩
  · have htrail : .parent ∉ directory.trail := fun hmem =>
      hplain (components_of_isAbsolute hdir ▸ List.mem_cons_of_mem _ hmem)
    rw [startsWith, components_normalize (trail_join hdir hrelative).1, fold_join hdir hrelative hdots,
      fold_components_eq_self hdir htrail, List.isPrefixOf_iff_prefix]
    exact List.prefix_append ..
  · rw [content_of_isSafe h] at hread
    split at hread
    · cases hread
    · next text' htext =>
      cases hread
      exact FileTree.file_of_read hrelative hdots htext
  · have hcontent : content files path = content files' path := by
      rw [content_of_isSafe h, content_of_isSafe h,
        FileTree.read_congr hrelative hdots hworking hagree]
    refine ⟨hcontent, ?_⟩
    rw [target, target, hcontent, FileTree.canonical?_congr hrelative hdots hworking hagree]

theorem content_of_refused (h : isSafe path = false) (files : FileTree) :
    content files path = .error ("Unsafe file path: " ++ path) := by
  rw [content, h]
  rfl

theorem target_of_refused (h : isSafe path = false) (files : FileTree) :
    target files path = .error ("Unsafe file path: " ++ path) := by
  rw [target, content_of_refused h]
  rfl

/-- The order is read off what follows the word for an analysis first. -/
theorem ofArguments_eq (h : "--analyze" ∉ before) (rest : List String) :
    Order.ofArguments (before ++ "--analyze" :: rest) =
      (rest.find? fun a => !("--".toList.isPrefixOf a.toList)).elim .unclear
        (.analyze · ((before ++ "--analyze" :: rest).contains "--errors-only")) := by
  have hbefore : ∀ a ∈ before, decide (a ≠ "--analyze") = true := fun a ha =>
    decide_eq_true (ne_of_mem_of_not_mem ha h)
  have hdrop : (before ++ "--analyze" :: rest).dropWhile (· ≠ "--analyze") = "--analyze" :: rest := by
    rw [List.dropWhile_append_of_pos hbefore, List.dropWhile_cons_of_neg (by simp)]
  simp only [Order.ofArguments, hdrop]
  cases rest.find? fun a => !("--".toList.isPrefixOf a.toList) <;> rfl

theorem find?_of_options (h : ∀ option ∈ options, IsOption option) (rest : List String) :
    (options ++ rest).find? (fun a => !("--".toList.isPrefixOf a.toList)) =
      rest.find? fun a => !("--".toList.isPrefixOf a.toList) := by
  rw [List.find?_append, List.find?_eq_none.mpr fun option hoption => ?_, Option.none_or]
  rw [Bool.not_eq_true', Bool.not_eq_false, List.isPrefixOf_iff_prefix]
  exact h option hoption

theorem ofArguments_of_names (h : Names args path) :
    Order.ofArguments args = .analyze path (args.contains "--errors-only") := by
  obtain ⟨before, options, after, rfl, hbefore, hoptions, hpath⟩ := h
  rw [IsOption, ← List.isPrefixOf_iff_prefix, Bool.not_eq_true] at hpath
  rw [ofArguments_eq hbefore, find?_of_options hoptions, List.find?_cons, hpath]
  rfl

theorem ofArguments_of_options (hbefore : "--analyze" ∉ before)
    (h : ∀ option ∈ options, IsOption option) :
    Order.ofArguments (before ++ "--analyze" :: options) = .unclear := by
  rw [ofArguments_eq hbefore, ← List.append_nil options, find?_of_options h, List.find?_nil]
  rfl

theorem refused (h : isSafe path = false) : Refused path where
  content := content_of_refused h
  target := target_of_refused h
  named args hnames now e := by
    simp only [perform, ofArguments_of_names hnames, Bind.bind, Task.bind, Task.read, Machine.advance,
      target_of_refused h]
    rfl
  unread args hnames := by
    simp only [treeFor, ofArguments_of_names hnames, h, Bool.false_eq_true, if_false]
  option hoption before options hbefore hoptions now e := by
    have hall : ∀ option ∈ options ++ [path], IsOption option :=
      List.forall_mem_append.mpr ⟨hoptions, List.forall_mem_singleton.mpr hoption⟩
    rw [perform, ofArguments_of_options hbefore hall]
    rfl

/-- A path on the command line stays in the working directory, or nothing is read at all. -/
theorem confines (path : String) : if isSafe path then Confined path else Refused path := by
  cases h : isSafe path with
  | true => exact confined h
  | false => exact refused h

/-- An accepted path with an empty piece and a dot, and one that climbs out of a directory it is in. -/
theorem confines_sources : isSafe "src//./a.pike" ∧
    ((Path.mk "/w/x/").join ⟨"src//./a.pike"⟩).normalize.startsWith ⟨"/w/x/"⟩ ∧
    isSafe "src/../../b.pike" = false ∧
    EndsAtOnce ["pike-lsp", "--analyze", "--errors-only", "src/../../b.pike"]
      "Unsafe file path: src/../../b.pike" := by
  have hsafe : isSafe "src//./a.pike" = true := by decide +kernel
  have hclimbs : isSafe "src/../../b.pike" = false := by decide +kernel
  have hconfined : Confined "src//./a.pike" := (if_pos hsafe).mp (confines "src//./a.pike")
  have hrefused : Refused "src/../../b.pike" := by
    simpa only [hclimbs, Bool.false_eq_true, if_false] using confines "src/../../b.pike"
  refine ⟨hsafe, hconfined.below ⟨"/w/x/"⟩ (by decide +kernel) (by decide +kernel), hclimbs, ?_⟩
  exact hrefused.named _ ⟨["pike-lsp"], ["--errors-only"], [], rfl, by simp,
    by simp [IsOption], by simp [IsOption]⟩

end CommandLine
end LanguageServer
