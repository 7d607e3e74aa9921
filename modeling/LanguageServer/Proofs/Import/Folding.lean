import LanguageServer.Import.Prober
import LanguageServer.Proofs.Url.FilePath
import Mathlib.Data.List.Induction

/-! Folding the dots of a path, and the file that the path denotes. Where the directories on its way
exist, a path and the folded path denote one file, unless the path climbs above the directory where it
begins: what climbs is dropped by folding, though there is a directory above. -/
namespace LanguageServer
open LanguageServer.Path LanguageServer.Path.Component

namespace Path

/-- What a path amounts to: so many steps up from where it begins, then names, the last one first. -/
structure Course where
  ups : Nat
  below : List String

def Course.step (k : Course) : Component → Course
  | .parent => match k.below with
    | [] => ⟨k.ups + 1, []⟩
    | _ :: below => ⟨k.ups, below⟩
  | .name n => ⟨k.ups, n :: k.below⟩
  | .root | .here => k

def courseOf (cs : List Component) : Course := cs.foldl Course.step ⟨0, []⟩

def course (p : Path) : Course := courseOf p.trail

/-- Somewhere on the way of a path there have been more pairs of dots than names. -/
def Climbs (p : Path) : Prop :=
  ∃ front, front <+: p.trail ∧ (front.filterMap name?).length < front.count .parent

variable {p : Path} {cs : List Component} {c : Component} {n : String} {ns : List String}
  {piece : List Char} {first : Bool}

theorem courseOf_append_singleton (cs : List Component) (c : Component) :
    courseOf (cs ++ [c]) = (courseOf cs).step c := by
  rw [courseOf, List.foldl_append]
  rfl

/-- Names and pairs of dots cancel out, but for the names left and the steps up. -/
theorem balance_courseOf (cs : List Component) :
    (courseOf cs).below.length + cs.count .parent = (cs.filterMap name?).length + (courseOf cs).ups := by
  induction cs using List.reverseRec with
  | nil => rfl
  | append_singleton cs c ih =>
    rw [courseOf_append_singleton, List.count_append, List.filterMap_append, List.length_append]
    cases c with
    | parent =>
      cases hbelow : (courseOf cs).below with
      | nil =>
        rw [hbelow] at ih
        simp only [Course.step, hbelow, List.length_nil] at ih ⊢
        simp [List.filterMap_cons, name?]
        omega
      | cons n below =>
        rw [hbelow] at ih
        simp only [Course.step, hbelow, List.length_cons] at ih ⊢
        simp [List.filterMap_cons, name?]
        omega
    | name n =>
      simp only [Course.step, List.length_cons]
      simp [name?]
      omega
    | root => simpa [List.filterMap_cons, Course.step, name?] using ih
    | here => simpa [List.filterMap_cons, Course.step, name?] using ih

theorem ups_le_step (k : Course) (c : Component) : k.ups ≤ (k.step c).ups := by
  cases c with
  | parent => cases h : k.below <;> simp [Course.step, h]
  | _ => exact Nat.le_refl _

theorem ups_mono {front : List Component} (h : front <+: cs) :
    (courseOf front).ups ≤ (courseOf cs).ups := by
  obtain ⟨rest, rfl⟩ := h
  induction rest using List.reverseRec with
  | nil => exact Nat.le_of_eq (by rw [List.append_nil])
  | append_singleton rest c ih =>
    rw [← List.append_assoc, courseOf_append_singleton]
    exact Nat.le_trans ih (ups_le_step _ c)

/-- A path climbs if it takes any steps up from where it begins. -/
theorem climbs_iff : p.Climbs ↔ 0 < p.course.ups := by
  constructor
  · rintro ⟨front, hfront, hcount⟩
    have hbalance := balance_courseOf front
    exact Nat.lt_of_lt_of_le (by omega) (ups_mono hfront)
  · suffices h : ∀ cs, 0 < (courseOf cs).ups →
        ∃ front, front <+: cs ∧ (front.filterMap name?).length < front.count .parent from h p.trail
    intro cs h
    induction cs using List.reverseRec with
    | nil => cases h
    | append_singleton cs c ih =>
      by_cases hbefore : 0 < (courseOf cs).ups
      · obtain ⟨front, hfront, hcount⟩ := ih hbefore
        exact ⟨front, hfront.trans (List.prefix_append cs [c]), hcount⟩
      · -- the first step up, when no name is left
        refine ⟨cs ++ [c], List.prefix_rfl, ?_⟩
        have hbalance := balance_courseOf cs
        rw [courseOf_append_singleton] at h
        cases c with
        | parent =>
          cases hbelow : (courseOf cs).below with
          | nil =>
            rw [hbelow, List.length_nil] at hbalance
            simp [List.filterMap_cons, name?]
            omega
          | cons n below => simp [Course.step, hbelow, hbefore] at h
        | _ => exact absurd h hbefore

/-- Folding keeps the names of the course, and what stands before the first component. -/
theorem foldl_foldStep {base : List Component} (hbase : base = [] ∨ base = [.root])
    (hcs : ∀ c ∈ cs, c.IsInner) (k : Course) :
    cs.foldl foldStep (k.below.map .name ++ base) =
      (cs.foldl Course.step k).below.map .name ++ base := by
  induction cs generalizing k with
  | nil => rfl
  | cons c cs ih =>
    obtain ⟨hc, hrest⟩ := List.forall_mem_cons.mp hcs
    rw [List.foldl_cons, List.foldl_cons, ← ih hrest]
    congr 1
    cases c with
    | root => cases hc.read
    | here => cases hc.read
    | parent =>
      cases hbelow : k.below with
      | nil => obtain rfl | rfl := hbase <;> simp [Course.step, hbelow, foldStep]
      | cons n below => simp [Course.step, hbelow, foldStep]
    | name n => rfl

/-- A piece that is no dots is a name. -/
theorem component?_eq_name (hempty : piece ≠ []) (hdot : piece ≠ ['.']) (hdots : piece ≠ ['.', '.']) :
    component? first piece = some (.name (String.ofList piece)) := by
  unfold component?
  split
  · exact absurd rfl hempty
  · exact absurd rfl hdot
  · exact absurd rfl hdots
  · rfl

/-- A dot where a path begins is nothing to be folded. -/
theorem fold_components (h : p.isAbsolute = false) : fold p.components = fold p.trail := by
  match hsplit : splitSlashes p.text.toList with
  | [] => exact absurd hsplit (splitSlashes_ne_nil _)
  | first :: rest =>
    have htrail : p.trail = (first :: rest).filterMap (component? false) := by rw [trail, hsplit]
    rw [htrail, components, hsplit]
    simp only [h, Bool.false_eq_true, if_false, List.filterMap_cons]
    by_cases hdot : first = ['.']
    · rw [hdot]
      rfl
    · have hfirst : component? true first = component? false first := by
        unfold component?
        split <;> first | rfl | exact absurd rfl hdot
      rw [hfirst]
      cases component? false first <;> rfl

theorem fold_of_relative (h : p.isAbsolute = false) :
    fold p.components = p.course.below.reverse.map .name := by
  have hfold := foldl_foldStep (.inl rfl) (fun c (hc : c ∈ p.trail) => isInner_of_mem hc) ⟨0, []⟩
  rw [fold_components h, fold_eq, List.map_reverse]
  exact congrArg List.reverse (hfold.trans (List.append_nil _))

theorem fold_of_isAbsolute (h : p.isAbsolute) :
    fold p.components = .root :: p.course.below.reverse.map .name := by
  have hfold := foldl_foldStep (.inr rfl) (fun c (hc : c ∈ p.trail) => isInner_of_mem hc) ⟨0, []⟩
  have hroot : fold (.root :: p.trail) = (p.trail.foldl foldStep [.root]).reverse := rfl
  rw [components_of_isAbsolute h, hroot]
  refine (congrArg List.reverse hfold).trans ?_
  rw [List.reverse_append, List.map_reverse]
  rfl

/-- The names of a course are those of components. -/
theorem mem_of_mem_below (h : n ∈ (courseOf cs).below) : .name n ∈ cs := by
  induction cs using List.reverseRec with
  | nil => cases h
  | append_singleton cs c ih =>
    rw [courseOf_append_singleton] at h
    cases c with
    | parent =>
      cases hbelow : (courseOf cs).below with
      | nil => simp [Course.step, hbelow] at h
      | cons m below =>
        rw [hbelow] at ih
        simp only [Course.step, hbelow] at h
        exact List.mem_append_left _ (ih (List.mem_cons_of_mem m h))
    | name m =>
      obtain rfl | h := List.mem_cons.mp h
      · simp
      · exact List.mem_append_left _ (ih h)
    | root => exact List.mem_append_left _ (ih h)
    | here => exact List.mem_append_left _ (ih h)

theorem ne_empty_of_isInner (h : (Component.name n).IsInner) : n.toList ≠ [] := by
  intro hempty
  have hread := h.read
  rw [Component.text, hempty] at hread
  cases hread

theorem getLast?_ne_slash (h : (Component.name n).IsInner) : n.toList.getLast? ≠ some '/' :=
  fun hlast => h.whole (List.mem_of_getLast? hlast)

theorem isAbsolute_name (h : (Component.name n).IsInner) : isAbsolute ⟨n⟩ = false := by
  have hrelative := isAbsolute_ofList h
  rwa [Component.text, String.ofList_toList] at hrelative

/-- Names that are joined to a path one by one stand after slashes. -/
theorem text_foldl_join {base : Path} (hbase : base.text.toList ≠ [])
    (hlast : base.text.toList.getLast? ≠ some '/') (hns : ∀ n ∈ ns, (Component.name n).IsInner) :
    (ns.foldl (fun (p : Path) n => p.join ⟨n⟩) base).text.toList =
      base.text.toList ++ ns.flatMap fun n => '/' :: n.toList := by
  induction ns generalizing base with
  | nil => simp
  | cons n ns ih =>
    obtain ⟨hn, hns⟩ := List.forall_mem_cons.mp hns
    have hne : ¬ (base.text.isEmpty ∨ base.text.toList.getLast? = some '/') := by
      rw [String.isEmpty_iff, ← String.toList_eq_nil_iff]
      exact fun h => h.elim hbase hlast
    have hjoin : (base.join ⟨n⟩).text.toList = base.text.toList ++ '/' :: n.toList := by
      rw [join, isAbsolute_name hn, if_neg Bool.false_ne_true, if_neg hne]
      simp
    have hend : (base.join ⟨n⟩).text.toList.getLast? ≠ some '/' := by
      rw [hjoin, List.getLast?_append_of_ne_nil _ (List.cons_ne_nil _ _),
        List.getLast?_cons_of_ne_nil (ne_empty_of_isInner hn)]
      exact getLast?_ne_slash hn
    rw [List.foldl_cons, ih (by simp [hjoin]) hend hns, hjoin, List.flatMap_cons, List.append_assoc]

section Names

variable (hnames : ∀ m ∈ n :: ns, (Component.name m).IsInner)
include hnames

/-- Names with slashes between them are split into the names again. -/
theorem splitSlashes_names :
    splitSlashes (n.toList ++ ns.flatMap fun n => '/' :: n.toList) = (n :: ns).map String.toList := by
  obtain ⟨hn, hns⟩ := List.forall_mem_cons.mp hnames
  have hwhole : '/' ∉ n.toList := hn.whole
  have hpieces : ns.flatMap (fun n => '/' :: n.toList) = (ns.map String.toList).flatMap ('/' :: ·) := by
    rw [List.flatMap_map]
  rw [hpieces, splitSlashes_flatMap hwhole fun piece hpiece => ?_]
  · rfl
  · obtain ⟨m, hm, rfl⟩ := List.mem_map.mp hpiece
    exact (hns m hm).whole

/-- Where nothing or the root stands first, no slash is put before the first name. -/
theorem text_names (base : Path)
    (hbase : base.text.isEmpty ∨ base.text.toList.getLast? = some '/') :
    ((n :: ns).foldl (fun (p : Path) n => p.join ⟨n⟩) base).text.toList =
      base.text.toList ++ (n.toList ++ ns.flatMap fun n => '/' :: n.toList) := by
  obtain ⟨hn, hns⟩ := List.forall_mem_cons.mp hnames
  have hjoin : (base.join ⟨n⟩).text.toList = base.text.toList ++ n.toList := by
    rw [join, isAbsolute_name hn, if_neg Bool.false_ne_true, if_pos hbase]
    simp
  have hne := ne_empty_of_isInner hn
  rw [List.foldl_cons, text_foldl_join ?_ ?_ hns, hjoin, List.append_assoc]
  · rw [hjoin]
    exact List.append_ne_nil_of_right_ne_nil _ hne
  · rw [hjoin, List.getLast?_append_of_ne_nil _ hne]
    exact getLast?_ne_slash hn

end Names

/-- The folded path begins where the path does, and its pieces are the names of the course, after an
empty one at the root. -/
theorem pieces_normalize (h : p.course.below ≠ []) :
    p.normalize.isAbsolute = p.isAbsolute ∧ splitSlashes p.normalize.text.toList =
      (if p.isAbsolute then [[]] else []) ++ p.course.below.reverse.map String.toList := by
  obtain ⟨n, ns, hns⟩ := List.exists_cons_of_ne_nil (List.reverse_ne_nil_iff.mpr h)
  have hnames : ∀ m ∈ n :: ns, (Component.name m).IsInner := fun m hm => by
    rw [← hns, List.mem_reverse] at hm
    exact isInner_of_mem (mem_of_mem_below hm)
  rw [normalize, hns, ← splitSlashes_names hnames]
  cases habs : p.isAbsolute with
  | true =>
    have hfolded : ofComponents (fold p.components) =
        (n :: ns).foldl (fun (p : Path) n => p.join ⟨n⟩) ⟨"/"⟩ := by
      rw [fold_of_isAbsolute habs, hns, ofComponents, List.foldl_cons, List.foldl_map]
      rfl
    have htext := text_names hnames ⟨"/"⟩ (.inr rfl)
    rw [hfolded]
    exact ⟨isAbsolute_iff.mpr ⟨_, htext⟩, by rw [htext]; rfl⟩
  | false =>
    have hfolded : ofComponents (fold p.components) =
        (n :: ns).foldl (fun (p : Path) n => p.join ⟨n⟩) ⟨""⟩ := by
      rw [fold_of_relative habs, hns, ofComponents, List.foldl_map]
    have htext := text_names hnames ⟨""⟩ (.inl rfl)
    have hn := hnames n List.mem_cons_self
    rw [hfolded]
    refine ⟨?_, by rw [htext]; rfl⟩
    rw [isAbsolute, htext, String.toList_empty, List.nil_append,
      List.head?_append_of_ne_nil _ (ne_empty_of_isInner hn)]
    exact isAbsolute_name hn

/-- Where no name is left, nothing is left but the root. -/
theorem normalize_of_below_eq_nil (h : p.course.below = []) :
    p.normalize = if p.isAbsolute then ⟨"/"⟩ else ⟨""⟩ := by
  cases habs : p.isAbsolute with
  | true =>
    rw [normalize, fold_of_isAbsolute habs, h]
    rfl
  | false =>
    rw [normalize, fold_of_relative habs, h]
    rfl

theorem course_normalize_of_below_eq_nil (h : p.course.below = []) : p.normalize.course = ⟨0, []⟩ := by
  rw [normalize_of_below_eq_nil h]
  split <;> rfl

end Path

namespace FileTree

/-- Where a path begins. -/
def start (t : FileTree) (p : Path) : Place := if p.isAbsolute then [] else t.working

/-- Where pieces of a path lead from a place. -/
def follow (t : FileTree) (at_ : Place) (pieces : List (List Char)) : Option Place :=
  pieces.foldlM t.enter at_

/-- Where a path leads, however long it is written. -/
def lead? (t : FileTree) (p : Path) : Option Place := t.follow (t.start p) (splitSlashes p.text.toList)

def isFileAt (t : FileTree) (at_ : Place) : Bool :=
  match t.entry? at_ with
  | some (.file _ _) | some .executable => true
  | _ => false

/-- The file that a path denotes, told by its place. -/
def fileAt? (t : FileTree) (p : Path) : Option Place := (t.lead? p).filter t.isFileAt

/-- The directories that a path names are there: all that its pieces but the last lead through. -/
def HasDirectories (t : FileTree) (p : Path) : Prop :=
  ∃ at_, t.follow (t.start p) (splitSlashes p.text.toList).dropLast = some at_ ∧ t.isDirectoryAt at_

/-- A path climbs above a working directory that has a directory above it. -/
def Strays (t : FileTree) (p : Path) : Prop := p.isAbsolute = false ∧ t.working ≠ [] ∧ p.Climbs

variable {t : FileTree} {at_ next at_' : Place} {p : Path} {piece : List Char} {pieces : List (List Char)}
  {n : String} {ns : List String}

theorem locate?_eq (t : FileTree) (p : Path) :
    t.locate? p = if isUsable p then t.lead? p else none := rfl

/-- A path is a file for the system if it denotes one and can be used. -/
theorem isFile_iff : t.isFile p ↔ isUsable p ∧ (t.fileAt? p).isSome := by
  have hfind : t.isFile p = match (t.locate? p).bind t.entry? with
    | some (.file _ _) => true
    | some .executable => true
    | _ => false := rfl
  rw [hfind, locate?_eq, fileAt?]
  cases isUsable p with
  | false => simp
  | true =>
    cases hlead : t.lead? p with
    | none => simp
    | some at_ =>
      have hentry : (match t.entry? at_ with
          | some (.file _ _) => true
          | some .executable => true
          | _ => false) = t.isFileAt at_ := rfl
      simp only [if_true, Option.bind_some, hentry]
      cases hfile : t.isFileAt at_ <;> simp [Option.filter, hfile]

/-- What one step of a walk can do: to stay, to go up, or to come to what has a name. -/
theorem enter_cases (h : t.enter at_ piece = some next) : t.isDirectoryAt at_ ∧
    (component? false piece = none ∧ next = at_ ∨
      component? false piece = some .parent ∧ next = at_.dropLast ∨
      component? false piece = some (.name (String.ofList piece)) ∧
        next = at_ ++ [String.ofList piece]) := by
  unfold enter at h
  split at h
  · next hdir =>
    refine ⟨hdir, ?_⟩
    split at h
    · cases h
      exact .inl ⟨rfl, rfl⟩
    · cases h
      exact .inl ⟨rfl, rfl⟩
    · cases h
      exact .inr (.inl ⟨rfl, rfl⟩)
    · next hempty hdot hdots =>
      dsimp only at h
      split at h
      · cases h
        exact .inr (.inr ⟨component?_eq_name hempty hdot hdots, rfl⟩)
      · cases h
  · cases h

/-- In a directory only a name can be missing. -/
theorem exists_name_of_enter (hdir : t.isDirectoryAt at_) (h : t.enter at_ piece = none) :
    component? false piece = some (.name (String.ofList piece)) := by
  unfold enter at h
  rw [if_pos hdir] at h
  split at h
  · cases h
  · cases h
  · cases h
  · next hempty hdot hdots => exact component?_eq_name hempty hdot hdots

theorem enter_nil : t.enter [] [] = some [] := rfl

theorem follow_append (pieces pieces' : List (List Char)) :
    t.follow at_ (pieces ++ pieces') = (t.follow at_ pieces).bind (t.follow · pieces') :=
  List.foldlM_append

theorem follow_singleton (piece : List Char) : t.follow at_ [piece] = t.enter at_ piece := by
  cases h : t.enter at_ piece <;> simp [follow, h]

/-- A walk over names leads down. -/
theorem eq_of_follow_names (hns : ∀ n ∈ ns, (Component.name n).IsInner)
    (h : t.follow at_ (ns.map String.toList) = some next) : next = at_ ++ ns := by
  induction ns generalizing at_ with
  | nil =>
    rw [List.append_nil]
    exact (Option.some.inj h).symm
  | cons n ns ih =>
    obtain ⟨hn, hns⟩ := List.forall_mem_cons.mp hns
    obtain ⟨mid, hmid, hrest⟩ := Option.bind_eq_some_iff.mp h
    have hread : component? false n.toList = some (.name n) := hn.read
    obtain ⟨-, ⟨hnone, -⟩ | ⟨hparent, -⟩ | ⟨-, hmid⟩⟩ := enter_cases hmid
    · rw [hread] at hnone
      cases hnone
    · rw [hread] at hparent
      cases hparent
    · rw [String.ofList_toList] at hmid
      rw [ih hns hrest, hmid, List.append_assoc]
      rfl

/-- The course of the pieces of a path. -/
def courseOfPieces (pieces : List (List Char)) : Course := courseOf (pieces.filterMap (component? false))

/-- A place so many steps above another one; none is above the root. -/
def above (at_ : Place) (ups : Nat) : Place := at_.take (at_.length - ups)

theorem dropLast_above (at_ : Place) (ups : Nat) : (above at_ ups).dropLast = above at_ (ups + 1) := by
  rw [above, above, List.dropLast_eq_take, List.take_take, List.length_take]
  congr 1
  omega

theorem courseOfPieces_append_singleton (pieces : List (List Char)) (piece : List Char) :
    courseOfPieces (pieces ++ [piece]) = match component? false piece with
      | some c => (courseOfPieces pieces).step c
      | none => courseOfPieces pieces := by
  rw [courseOfPieces, List.filterMap_append, List.filterMap_cons]
  cases component? false piece with
  | none => rw [List.filterMap_nil, List.append_nil]; rfl
  | some c => exact courseOf_append_singleton _ c

theorem isInner_of_mem_course (hpieces : ∀ piece ∈ pieces, '/' ∉ piece)
    (h : n ∈ (courseOfPieces pieces).below) : (Component.name n).IsInner := by
  obtain ⟨piece, hpiece, hread⟩ := List.mem_filterMap.mp (mem_of_mem_below h)
  obtain rfl := component?_eq_some hread
  exact ⟨hpieces _ hpiece, hread⟩

/-- A walk leads where its course does: up first, then down along the names that are left. -/
theorem follow_course (hpieces : ∀ piece ∈ pieces, '/' ∉ piece) (h : t.follow at_ pieces = some next) :
    t.follow (above at_ (courseOfPieces pieces).ups)
      ((courseOfPieces pieces).below.reverse.map String.toList) = some next := by
  induction pieces using List.reverseRec generalizing next with
  | nil =>
    rw [← h]
    simp [above, courseOfPieces, courseOf, follow]
  | append_singleton pieces piece ih =>
    rw [follow_append] at h
    obtain ⟨mid, hmid, hlast⟩ := Option.bind_eq_some_iff.mp h
    rw [follow_singleton] at hlast
    have hbefore : ∀ piece ∈ pieces, '/' ∉ piece := fun p hp => hpieces p (List.mem_append_left _ hp)
    have hcourse := ih hbefore hmid
    rw [courseOfPieces_append_singleton]
    -- the last piece is passed over, leads up, or is a name
    obtain ⟨-, ⟨hread, rfl⟩ | ⟨hread, rfl⟩ | ⟨hread, rfl⟩⟩ := enter_cases hlast
    · rw [hread]
      exact hcourse
    · rw [hread]
      cases hbelow : (courseOfPieces pieces).below with
      | nil =>
        rw [hbelow] at hcourse
        obtain rfl : above at_ (courseOfPieces pieces).ups = mid := Option.some.inj hcourse
        simp only [Course.step, hbelow]
        exact congrArg some (dropLast_above at_ _).symm
      | cons n below =>
        have hn : (Component.name n).IsInner :=
          isInner_of_mem_course hbefore (hbelow ▸ List.mem_cons_self)
        have hread : component? false n.toList = some (.name n) := hn.read
        rw [hbelow, List.reverse_cons, List.map_append, follow_append] at hcourse
        obtain ⟨up, hup, hcourse⟩ := Option.bind_eq_some_iff.mp hcourse
        simp only [Course.step, hbelow]
        rw [hup]
        have hmid := eq_of_follow_names (by simpa using hn) hcourse
        rw [hmid, List.dropLast_concat]
    · rw [hread]
      simp only [Course.step, List.reverse_cons, List.map_append]
      rw [follow_append, hcourse, Option.bind_some, List.map_singleton, String.toList_ofList,
        follow_singleton, hlast]

theorem above_start (h : ¬ t.Strays p) : above (t.start p) p.course.ups = t.start p := by
  cases habs : p.isAbsolute with
  | true => simp [start, habs, above]
  | false =>
    by_cases hworking : t.working = []
    · simp [start, habs, above, hworking]
    · have hups : ¬ 0 < p.course.ups := fun hups => h ⟨habs, hworking, climbs_iff.mpr hups⟩
      rw [above, Nat.eq_zero_of_not_pos hups, Nat.sub_zero, List.take_length]

theorem isInner_of_mem_below (h : n ∈ p.course.below.reverse) : (Component.name n).IsInner :=
  isInner_of_mem (mem_of_mem_below (List.mem_reverse.mp h))

/-- A path leads to where its course ends. -/
theorem follow_of_lead? (h : t.lead? p = some at_) :
    t.follow (above (t.start p) p.course.ups) (p.course.below.reverse.map String.toList) = some at_ :=
  follow_course (fun _ => not_slash_of_mem_splitSlashes) h

theorem lead?_normalize (h : p.course.below ≠ []) : t.lead? p.normalize =
    t.follow (t.start p) (p.course.below.reverse.map String.toList) := by
  obtain ⟨habs, hpieces⟩ := pieces_normalize h
  rw [lead?, start, start, habs, hpieces]
  cases p.isAbsolute with
  | true => rw [if_pos rfl, if_pos rfl, follow_append, follow_singleton, enter_nil, Option.bind_some]
  | false => rfl

theorem isFileAt_of_isDirectoryAt (h : t.isDirectoryAt at_) : t.isFileAt at_ = false := by
  unfold isDirectoryAt at h
  unfold isFileAt
  split at h
  · next hentry => rw [hentry]
  · cases h

/-- Where a path begins is no file. -/
theorem fileAt?_of_lead?_start (h : t.lead? p = some (t.start p)) : t.fileAt? p = none := by
  obtain ⟨first, rest, hpieces⟩ := List.exists_cons_of_ne_nil (splitSlashes_ne_nil p.text.toList)
  have hfollow := h
  rw [lead?, hpieces] at hfollow
  obtain ⟨mid, hmid, -⟩ := Option.bind_eq_some_iff.mp hfollow
  rw [fileAt?, h]
  simp [Option.filter, isFileAt_of_isDirectoryAt (enter_cases hmid).1]

/-- A path whose names are all taken back denotes no file. -/
theorem fileAt?_of_below_eq_nil (hp : ¬ t.Strays p) (hbelow : p.course.below = []) :
    t.fileAt? p = none := by
  cases hlead : t.lead? p with
  | none =>
    rw [fileAt?, hlead]
    rfl
  | some at_ =>
    have hcourse := follow_of_lead? hlead
    rw [hbelow, above_start hp] at hcourse
    exact fileAt?_of_lead?_start (hlead.trans hcourse.symm)

theorem course_eq (p : Path) : p.course = courseOfPieces (splitSlashes p.text.toList) := rfl

/-- Where the directories are there, the folded path leads where the path does. -/
theorem lead?_normalize_eq (hp : ¬ t.Strays p) (hbelow : p.course.below ≠ []) (h : t.HasDirectories p) :
    t.lead? p.normalize = t.lead? p := by
  obtain ⟨mid, hmid, hdir⟩ := h
  have hpieces := List.dropLast_append_getLast (splitSlashes_ne_nil p.text.toList)
  generalize (splitSlashes p.text.toList).getLast _ = last at hpieces
  generalize (splitSlashes p.text.toList).dropLast = init at hpieces hmid
  have hlead : t.lead? p = t.enter mid last := by
    rw [lead?, ← hpieces, follow_append, hmid, Option.bind_some, follow_singleton]
  rw [lead?_normalize hbelow]
  cases hlast : t.enter mid last with
  | some at_ =>
    rw [hlast] at hlead
    rw [hlead, ← follow_of_lead? hlead, above_start hp]
  | none =>
    -- what is missing has a name, so it is the last name that is left
    have hread := exists_name_of_enter hdir hlast
    have hcourse : p.course = (courseOfPieces init).step (.name (String.ofList last)) := by
      rw [course_eq, ← hpieces, courseOfPieces_append_singleton, hread]
    have hstay := above_start hp
    have hinit : ∀ piece ∈ init, '/' ∉ piece := fun piece hpiece =>
      not_slash_of_mem_splitSlashes (hpieces ▸ List.mem_append_left _ hpiece)
    have hbefore := follow_course hinit hmid
    rw [hcourse] at hstay ⊢
    simp only [Course.step, List.reverse_cons, List.map_append] at hstay ⊢
    rw [hstay] at hbefore
    rw [follow_append, hbefore, Option.bind_some, List.map_singleton, String.toList_ofList,
      follow_singleton, hlast, hlead, hlast]

/-- Where the directories are there, the folded path denotes the file that the path does. -/
theorem fileAt?_normalize (hp : ¬ t.Strays p) (h : t.HasDirectories p) :
    t.fileAt? p.normalize = t.fileAt? p := by
  by_cases hbelow : p.course.below = []
  · have hcourse := course_normalize_of_below_eq_nil hbelow
    have hstay : ¬ t.Strays p.normalize := fun hstray => by
      have hups := climbs_iff.mp hstray.2.2
      rw [hcourse] at hups
      cases hups
    rw [fileAt?_of_below_eq_nil hp hbelow, fileAt?_of_below_eq_nil hstay (by rw [hcourse])]
  · rw [fileAt?, lead?_normalize_eq hp hbelow h, fileAt?]

/-- Where a path climbs above the working directory, the folded path leads elsewhere. -/
theorem lead?_normalize_ne (hp : t.Strays p) (h : t.lead? p = some at_) :
    t.lead? p.normalize ≠ some at_ := by
  obtain ⟨habs, hworking, hclimbs⟩ := hp
  have hups := climbs_iff.mp hclimbs
  have hstart : t.start p = t.working := by rw [start, habs, if_neg Bool.false_ne_true]
  have hat := eq_of_follow_names (fun _ => isInner_of_mem_below) (follow_of_lead? h)
  rw [hstart] at hat
  intro hfolded
  have hat' : at_ = t.working ++ p.course.below.reverse := by
    by_cases hbelow : p.course.below = []
    · rw [normalize_of_below_eq_nil hbelow, habs, if_neg Bool.false_ne_true] at hfolded
      rw [hbelow, List.reverse_nil, List.append_nil]
      have hempty : t.enter t.working [] = some at_ := (follow_singleton []).symm.trans hfolded
      obtain ⟨-, ⟨-, hat⟩ | ⟨hparent, -⟩ | ⟨hname, -⟩⟩ := enter_cases hempty
      · exact hat
      · cases hparent
      · cases hname
    · rw [lead?_normalize hbelow, hstart] at hfolded
      exact eq_of_follow_names (fun _ => isInner_of_mem_below) hfolded
  have hlength := congrArg List.length (hat.symm.trans hat')
  have hpos := List.length_pos_iff.mpr hworking
  rw [List.length_append, List.length_append, above, List.length_take] at hlength
  omega

end FileTree

namespace Prober
open ModulePath

variable {p : Prober} {files : FileTree} {kind : ImportKind} {target : String} {current found : Path}

/-- What a relative path stands for in the directories where it is looked for, in order. -/
def joined (p : Prober) (kind : ImportKind) (target : String) (directory : Path) : List Path :=
  (directory :: if kind = .includeFile then p.includePaths else p.moduleRoots).map
    (·.join ⟨unquote target⟩)

/-- How the file of a relative path is found: the folded path is probed in one directory after the
other. -/
structure LooksUp (p : Prober) (files : FileTree) (kind : ImportKind) (target : String)
    (current : Path) : Prop where
  search : p.resolve files kind target current = current.parent.bind fun directory =>
    ((p.joined kind target directory).map Path.normalize).find? files.isFile
  /-- What is probed is the file that was named, if no directory is missing and nothing climbs too high. -/
  same : ∀ directory, ∀ q ∈ p.joined kind target directory, files.HasDirectories q → ¬ files.Strays q →
    files.fileAt? q.normalize = files.fileAt? q
  /-- What climbs above the working directory is looked for elsewhere. -/
  astray : ∀ directory, ∀ q ∈ p.joined kind target directory, files.Strays q →
    ∀ at_, files.lead? q = some at_ → files.lead? q.normalize ≠ some at_
  found : ∀ found, p.resolve files kind target current = some found →
    ∃ directory, current.parent = some directory ∧ ∃ q ∈ p.joined kind target directory,
      found = q.normalize ∧ (files.fileAt? found).isSome ∧
        (files.HasDirectories q → (files.fileAt? found = files.fileAt? q ↔ ¬ files.Strays q))

section Relative

variable (hkind : kind = .includeFile ∨ isPathLike (unquote target) = true)
  (hrelative : (Path.mk (unquote target)).isAbsolute = false)
include hkind hrelative

theorem candidates_eq (p : Prober) (directory : Path) :
    p.candidates kind (unquote target) directory = (p.joined kind target directory).map Path.normalize := by
  unfold candidates
  rw [if_pos hkind]
  simp only [hrelative, Bool.false_eq_true, if_false, joined, List.map_map, Function.comp_def]

theorem resolve_eq_find? (hfull : unquote target ≠ "") :
    p.resolve files kind target current = current.parent.bind fun directory =>
      ((p.joined kind target directory).map Path.normalize).find? files.isFile := by
  have hempty : ¬ (unquote target).isEmpty = true := by rwa [String.isEmpty_iff]
  have hend : ¬ ((kind = .includeFile ∨ isPathLike (unquote target) = true) ∧
      (Path.mk (unquote target)).isAbsolute = true) := fun h => by
    rw [hrelative] at h
    cases h.2
  unfold resolve
  dsimp only
  rw [if_neg hempty]
  refine congrArg current.parent.bind (funext fun directory => ?_)
  rw [candidates_eq hkind hrelative]
  simp only [if_neg hend]
  exact bind_pure _

theorem looksUp (hfull : unquote target ≠ "") : p.LooksUp files kind target current where
  search := resolve_eq_find? hkind hrelative hfull
  same _ _ _ hdirs hstay := FileTree.fileAt?_normalize hstay hdirs
  astray _ _ _ hstray _ hlead := FileTree.lead?_normalize_ne hstray hlead
  found found h := by
    rw [resolve_eq_find? hkind hrelative hfull] at h
    obtain ⟨directory, hdirectory, h⟩ := Option.bind_eq_some_iff.mp h
    obtain ⟨q, hq, hnormal⟩ := List.mem_map.mp (List.mem_of_find?_eq_some h)
    have hsome := (FileTree.isFile_iff.mp (List.find?_some h)).2
    refine ⟨directory, hdirectory, q, hq, hnormal.symm, hsome, fun hdirs => ⟨fun hsame hstray => ?_,
      fun hstay => hnormal ▸ FileTree.fileAt?_normalize hstay hdirs⟩⟩
    obtain ⟨at_, hfound⟩ := Option.isSome_iff_exists.mp hsome
    have hlead := (Option.filter_eq_some_iff.mp (hsame.symm.trans hfound)).1
    exact FileTree.lead?_normalize_ne hstray hlead
      (hnormal ▸ (Option.filter_eq_some_iff.mp hfound).1)

end Relative

section Yard

/-- Two files of one name, one of them above the working directory, and sources below it. -/
def yard : FileTree where
  entries := ⟨[(["b.pike"], .file [] 0), (["w"], .directory), (["w", "b.pike"], .file [] 0),
    (["w", "sub"], .directory), (["w", "sub", "a.pike"], .file [] 0)]⟩
  working := ["w"]

/-- With the root `..` the file in the working directory is found in place of the file above it. With a
path into the working directory it is found where it was named. -/
theorem looksUp_yard :
    (Prober.mk [] [⟨".."⟩]).resolve yard .inheritProgram "b.pike" ⟨"/w/sub/a.pike"⟩ = some ⟨"b.pike"⟩ ∧
      yard.fileAt? ⟨"../b.pike"⟩ = some ["b.pike"] ∧ yard.lead? ⟨"b.pike"⟩ ≠ some ["b.pike"] ∧
      yard.fileAt? ⟨"/w/b.pike"⟩ = yard.fileAt? ⟨"/w/sub/../b.pike"⟩ := by
  have hclimbs : Path.Climbs ⟨"../b.pike"⟩ := climbs_iff.mpr (by decide +kernel)
  have hbeside : (Prober.mk [] [⟨".."⟩]).LooksUp yard .inheritProgram "b.pike" ⟨"/w/sub/a.pike"⟩ :=
    looksUp (.inr (by decide +kernel)) (by decide +kernel) (by decide +kernel)
  have habove : (Prober.mk [] []).LooksUp yard .inheritProgram "../b.pike" ⟨"/w/sub/a.pike"⟩ :=
    looksUp (.inr (by decide +kernel)) (by decide +kernel) (by decide +kernel)
  refine ⟨by decide +kernel, by decide +kernel, ?_, ?_⟩
  · have hnormal : (Path.mk "../b.pike").normalize = ⟨"b.pike"⟩ := by decide +kernel
    exact hnormal ▸ hbeside.astray ⟨"/w/sub"⟩ ⟨"../b.pike"⟩ (by decide +kernel)
      ⟨by decide, by decide, hclimbs⟩ ["b.pike"] (by decide +kernel)
  · have hnormal : (Path.mk "/w/sub/../b.pike").normalize = ⟨"/w/b.pike"⟩ := by decide +kernel
    exact hnormal ▸ habove.same ⟨"/w/sub"⟩ ⟨"/w/sub/../b.pike"⟩ (by decide +kernel)
      ⟨["w"], by decide +kernel, by decide +kernel⟩ fun hstray => absurd hstray.1 (by decide)

end Yard

end Prober
end LanguageServer
