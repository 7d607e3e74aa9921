import LanguageServer.Import.WaterfallWalk
import LanguageServer.Proofs.Import.CycleSearch

/-! What the collection of visible symbols knows at every step, told by the imports and the symbols
of every file. The queue holds files of at most two distances, the nearer ones first. -/
namespace LanguageServer
open Relation

variable {deps : Url → List Url} {root : Url} {n m : Nat} {u v : Url}

/-- A path of some length leads from the root to a file. -/
inductive Away (deps : Url → List Url) (root : Url) : Nat → Url → Prop
  | root : Away deps root 0 root
  | step {n : Nat} {u v : Url} : Away deps root n u → Edge deps u v → Away deps root (n + 1) v

/-- The length of the shortest paths from the root to a file. -/
def IsDistance (deps : Url → List Url) (root : Url) (n : Nat) (u : Url) : Prop :=
  Away deps root n u ∧ ∀ m, Away deps root m u → n ≤ m

theorem isDistance_root : IsDistance deps root 0 root := ⟨.root, fun _ _ => Nat.zero_le _⟩

theorem IsDistance.unique (hn : IsDistance deps root n u) (hm : IsDistance deps root m u) :
    n = m :=
  Nat.le_antisymm (hn.2 m hm.1) (hm.2 n hn.1)

theorem IsDistance.ne_root (h : IsDistance deps root n u) (hn : 1 ≤ n) : u ≠ root := by
  rintro rfl
  have := h.unique isDistance_root
  omega

theorem Away.exists_isDistance (h : Away deps root m u) : ∃ n ≤ m, IsDistance deps root n u := by
  induction m using Nat.strong_induction_on with
  | _ m ih =>
    by_cases hshort : ∃ k < m, Away deps root k u
    · obtain ⟨k, hk, haway⟩ := hshort
      obtain ⟨n, hn, hdist⟩ := ih k hk haway
      exact ⟨n, by omega, hdist⟩
    · refine ⟨m, le_rfl, h, fun k hk => ?_⟩
      by_contra hlt
      exact hshort ⟨k, by omega, hk⟩

theorem Away.reflTransGen (h : Away deps root n u) : ReflTransGen (Edge deps) root u := by
  induction h with
  | root => exact .refl
  | step _ hedge ih => exact ih.tail hedge

/-- The last file before another on a shortest path is one import nearer. -/
theorem IsDistance.pred (h : IsDistance deps root (n + 1) v) :
    ∃ u, IsDistance deps root n u ∧ Edge deps u v := by
  obtain ⟨haway, hmin⟩ := h
  cases haway with
  | step haway hedge =>
    rename_i u
    refine ⟨u, ⟨haway, fun m hm => ?_⟩, hedge⟩
    have := hmin (m + 1) (hm.step hedge)
    omega

/-- The symbols seen from a root up to a distance, told by what every file has at its top if it can
be read: every symbol at the distance of its file, every name once, from a nearest file that defines
it, nearer files first. -/
structure IsWaterfall (deps : Url → List Url) (gives : Url → Option (List Symbol) → Prop)
    (tops : Url → Option (List Symbol)) (root : Url) (limit : Nat) (found : List WaterfallSymbol) :
    Prop where
  given : ∀ u n, IsDistance deps root n u → 1 ≤ n → n ≤ limit → gives u (tops u)
  placed : ∀ x ∈ found, IsDistance deps root x.depth x.source ∧ 1 ≤ x.depth ∧ x.depth ≤ limit ∧
    x.source ≠ root
  genuine : ∀ x ∈ found, x.symbol ∈ (tops x.source).getD [] ∧ x.symbol.inherited? = none
  once : (found.map (·.symbol.name)).Nodup
  complete : ∀ u n, IsDistance deps root n u → 1 ≤ n → n ≤ limit → ∀ s ∈ (tops u).getD [],
    s.inherited? = none → ∃ x ∈ found, x.symbol.name = s.name ∧ x.depth ≤ n
  ordered : found.Pairwise (·.depth ≤ ·.depth)

namespace WaterfallWalk

/-- The files that a list of imports leads to. -/
def targets (edges : List ImportEdge) : List Url := edges.filterMap ImportEdge.url?

theorem mem_urls (set : ImportSet) : v ∈ set.urls ↔ v ∈ targets set.edges := by
  have hfold (us seen : List Url) :
      v ∈ us.foldl (fun seen u => if seen.contains u then seen else seen ++ [u]) seen ↔
        v ∈ seen ∨ v ∈ us := by
    induction us generalizing seen with
    | nil => simp
    | cons u us ih =>
      rw [List.foldl_cons, ih, List.mem_cons]
      by_cases hu : u ∈ seen
      · rw [if_pos (List.contains_iff_mem.mpr hu)]
        constructor
        · exact Or.imp_right .inr
        · rintro (hv | rfl | hv)
          · exact .inl hv
          · exact .inl hu
          · exact .inr hv
      · rw [if_neg (by simpa using hu), List.mem_append, List.mem_singleton, or_assoc]
  exact (hfold _ []).trans (by simp [targets])

/-- How far a walk has come. The imports of the file that is open, if one is, were not all looked
at. -/
structure Spreading (deps : Url → List Url) (root : Url) (limit : Nat) (opened : Option Url)
    (w : WaterfallWalk) : Prop where
  limited : w.limit = limit
  queued : ∀ x ∈ w.queue, IsDistance deps root x.depth x.file ∧ x.file ∈ w.visited
  levels : ∀ x ∈ w.queue, w.depth ≤ x.depth ∧ x.depth ≤ w.depth + 1 ∧ x.depth ≤ limit
  sorted : w.queue.Pairwise (·.depth ≤ ·.depth)
  ahead : ∀ v ∈ targets w.edges, Away deps root (w.depth + 1) v ∧ w.depth < limit
  begun : root ∈ w.visited
  layers : ∀ n ≤ w.depth, ∀ u, IsDistance deps root n u → u ∈ w.visited
  closed : ∀ u ∈ w.visited, opened ≠ some u → (∀ x ∈ w.queue, x.file ≠ u) →
    ∀ n < limit, IsDistance deps root n u → ∀ v ∈ deps u, v ∈ w.visited ∨ v ∈ targets w.edges

/-- Every name that counts is the name of one symbol found. -/
def IsNamed (w : WaterfallWalk) : Prop :=
  (∀ name, name ∈ w.names ↔ name ∈ w.found.map (·.symbol.name)) ∧
    (w.found.map (·.symbol.name)).Nodup

/-- What a walk has gathered from the files it visited; the file that is open gave nothing yet. -/
structure Gathered (deps : Url → List Url) (gives : Url → Option (List Symbol) → Prop)
    (tops : Url → Option (List Symbol)) (root : Url) (limit : Nat) (opened : Option Url)
    (w : WaterfallWalk) : Prop where
  given : ∀ u ∈ w.visited, u ≠ root → opened ≠ some u → gives u (tops u)
  placed : ∀ x ∈ w.found, IsDistance deps root x.depth x.source ∧ 1 ≤ x.depth ∧ x.depth ≤ limit ∧
    x.depth ≤ w.depth + 1
  genuine : ∀ x ∈ w.found, x.source ∈ w.visited ∧ x.symbol ∈ (tops x.source).getD [] ∧
    x.symbol.inherited? = none
  named : w.IsNamed
  covered : ∀ u ∈ w.visited, u ≠ root → opened ≠ some u → ∀ s ∈ (tops u).getD [],
    s.inherited? = none →
      ∃ x ∈ w.found, x.symbol.name = s.name ∧ ∀ n, IsDistance deps root n u → x.depth ≤ n
  ordered : w.found.Pairwise (·.depth ≤ ·.depth)

variable {limit : Nat} {opened : Option Url} {w : WaterfallWalk}
  {gives : Url → Option (List Symbol) → Prop} {tops : Url → Option (List Symbol)}

theorem spreading_start (deps : Url → List Url) (root : Url) (text : String) (limit : Nat) :
    Spreading deps root limit none (start root text limit) where
  limited := rfl
  queued := by simp [start, isDistance_root]
  levels := by simp [start]
  sorted := by simp [start]
  ahead := by simp [start, targets]
  begun := by simp [start]
  layers n hn u hu := by
    obtain rfl := Nat.le_zero.mp hn
    cases hu.1 with
    | root => simp [start]
  closed u hu _ hqueue := by simp_all [start]

theorem gathered_start (deps : Url → List Url) (gives : Url → Option (List Symbol) → Prop)
    (tops : Url → Option (List Symbol)) (root : Url) (text : String) (limit : Nat) :
    Gathered deps gives tops root limit none (start root text limit) := by
  constructor <;> simp_all [start, IsNamed]

/-- A file that a walk comes to for the first time is as far away as it is found. -/
theorem Spreading.isDistance (h : Spreading deps root limit opened w)
    (haway : Away deps root (w.depth + 1) v) (hv : v ∉ w.visited) :
    IsDistance deps root (w.depth + 1) v := by
  obtain ⟨n, hn, hdist⟩ := haway.exists_isDistance
  by_cases hle : n ≤ w.depth
  · exact absurd (h.layers n hle v hdist) hv
  · rwa [show w.depth + 1 = n by omega]

/-- All files up to the limit were visited once nothing is left to look at. -/
theorem Spreading.visited_of_isDistance (h : Spreading deps root limit none w)
    (hqueue : w.queue = []) (hedges : w.edges = []) (hn : n ≤ limit)
    (hu : IsDistance deps root n u) : u ∈ w.visited := by
  induction n generalizing u with
  | zero =>
    cases hu.1 with
    | root => exact h.begun
  | succ n ih =>
    obtain ⟨p, hp, hedge⟩ := hu.pred
    have hmem := h.closed p (ih (by omega) hp) (by simp) (by simp [hqueue]) n (by omega) hp u hedge
    simpa [hedges, targets] using hmem

theorem Gathered.isWaterfall (hg : Gathered deps gives tops root limit none w)
    (hs : Spreading deps root limit none w) (hqueue : w.queue = []) (hedges : w.edges = []) :
    IsWaterfall deps gives tops root limit w.found where
  given u n hu hpos hn :=
    hg.given u (hs.visited_of_isDistance hqueue hedges hn hu) (hu.ne_root hpos) (by simp)
  placed x hx := by
    obtain ⟨hdist, hpos, hle, -⟩ := hg.placed x hx
    exact ⟨hdist, hpos, hle, hdist.ne_root hpos⟩
  genuine x hx := (hg.genuine x hx).2
  once := hg.named.2
  complete u n hu hpos hn s hs' hown := by
    have hvisited := hs.visited_of_isDistance hqueue hedges hn hu
    obtain ⟨x, hx, hname, hmin⟩ := hg.covered u hvisited (hu.ne_root hpos) (by simp) s hs' hown
    exact ⟨x, hx, hname, hmin n hu⟩
  ordered := hg.ordered

/-- What a walk has gathered does not depend on what it still has to look at. -/
theorem Gathered.of_eq {w' : WaterfallWalk} (h : Gathered deps gives tops root limit opened w)
    (hfound : w'.found = w.found) (hnames : w'.names = w.names) (hvisited : w'.visited = w.visited)
    (hdepth : w.depth ≤ w'.depth) : Gathered deps gives tops root limit opened w' where
  given := by rw [hvisited]; exact h.given
  placed x hx := by
    obtain ⟨hdist, hpos, hle, hnear⟩ := h.placed x (hfound ▸ hx)
    exact ⟨hdist, hpos, hle, by omega⟩
  genuine x hx := hvisited ▸ h.genuine x (hfound ▸ hx)
  named := by rw [IsNamed, hnames, hfound]; exact h.named
  covered := by rw [hfound, hvisited]; exact h.covered
  ordered := hfound ▸ h.ordered

/-- A file that was visited is open until its symbols are gathered. -/
theorem Gathered.visit {w' : WaterfallWalk} (h : Gathered deps gives tops root limit none w)
    (hfound : w'.found = w.found) (hnames : w'.names = w.names)
    (hvisited : w'.visited = v :: w.visited) (hdepth : w'.depth = w.depth) :
    Gathered deps gives tops root limit (some v) w' where
  given u hu hne hopen := by
    rw [hvisited] at hu
    cases List.mem_cons.mp hu with
    | inl he => exact absurd (congrArg some he.symm) hopen
    | inr hu => exact h.given u hu hne (by simp)
  placed := by rw [hfound, hdepth]; exact h.placed
  genuine x hx := by
    obtain ⟨hmem, hrest⟩ := h.genuine x (hfound ▸ hx)
    exact ⟨hvisited ▸ List.mem_cons_of_mem _ hmem, hrest⟩
  named := by rw [IsNamed, hnames, hfound]; exact h.named
  covered u hu hne hopen := by
    rw [hvisited] at hu
    rw [hfound]
    cases List.mem_cons.mp hu with
    | inl he => exact absurd (congrArg some he.symm) hopen
    | inr hu => exact h.covered u hu hne (by simp)
  ordered := hfound ▸ h.ordered

/-- An import that leads nowhere new is passed over. -/
theorem Spreading.skip {w : WaterfallWalk} {e : ImportEdge}
    (h : Spreading deps root limit none { w with edges := e :: w.edges })
    (hold : ∀ v, e.url? = some v → v ∈ w.visited) : Spreading deps root limit none w where
  limited := h.limited
  queued := h.queued
  levels := h.levels
  sorted := h.sorted
  ahead v hv := by
    refine h.ahead v ?_
    cases he : e.url? with
    | none => simpa [targets, he] using hv
    | some x => simpa [targets, he] using Or.inr hv
  begun := h.begun
  layers := h.layers
  closed u hu hopen hqueue n hn hdist v hv := by
    refine (h.closed u hu hopen hqueue n hn hdist v hv).elim .inl fun hv => ?_
    cases he : e.url? with
    | none => exact .inr (by simpa [targets, he] using hv)
    | some x =>
      simp only [targets, List.filterMap_cons, he, List.mem_cons] at hv
      exact hv.elim (fun hx => .inl (hx ▸ hold x he)) .inr

/-- An import that leads to a new file opens it. -/
theorem Spreading.visit {w : WaterfallWalk} {e : ImportEdge} {dep : Url}
    (h : Spreading deps root limit none { w with edges := e :: w.edges }) (he : e.url? = some dep) :
    Spreading deps root limit (some dep) { w with visited := dep :: w.visited } where
  limited := h.limited
  queued x hx := ⟨(h.queued x hx).1, List.mem_cons_of_mem _ (h.queued x hx).2⟩
  levels := h.levels
  sorted := h.sorted
  ahead v hv := h.ahead v (by simpa [targets, he] using Or.inr hv)
  begun := List.mem_cons_of_mem _ h.begun
  layers n hn u hu := List.mem_cons_of_mem _ (h.layers n hn u hu)
  closed u hu hopen hqueue n hn hdist v hv := by
    cases List.mem_cons.mp hu with
    | inl hu => exact absurd (congrArg some hu.symm) hopen
    | inr hu =>
      refine (h.closed u hu (by simp) hqueue n hn hdist v hv).elim
        (fun hv => .inl (List.mem_cons_of_mem _ hv)) fun hv => ?_
      simp only [targets, List.filterMap_cons, he, List.mem_cons] at hv
      exact hv.elim (fun hx => .inl (hx ▸ List.mem_cons_self)) .inr

/-- A file at the limit is not looked into. -/
theorem Spreading.drop {w : WaterfallWalk} {x : Source}
    (h : Spreading deps root limit none { w with queue := x :: w.queue }) (hx : limit ≤ x.depth) :
    Spreading deps root limit none w where
  limited := h.limited
  queued y hy := h.queued y (List.mem_cons_of_mem _ hy)
  levels y hy := h.levels y (List.mem_cons_of_mem _ hy)
  sorted := (List.pairwise_cons.mp h.sorted).2
  ahead := h.ahead
  begun := h.begun
  layers := h.layers
  closed u hu hopen hqueue n hn hdist v hv := by
    refine h.closed u hu hopen (fun y hy hyu => ?_) n hn hdist v hv
    cases List.mem_cons.mp hy with
    | inl he =>
      subst he
      have := hdist.unique (hyu ▸ (h.queued y List.mem_cons_self).1)
      omega
    | inr hy => exact hqueue y hy hyu

/-- The first file of the queue, taken out to look at its imports. -/
structure Expanding (deps : Url → List Url) (root : Url) (limit : Nat) (x : Source)
    (w : WaterfallWalk) : Prop where
  spreading : Spreading deps root limit (some x.file) w
  edges : w.edges = []
  distance : IsDistance deps root x.depth x.file
  within : x.depth < limit
  next : w.depth ≤ x.depth
  first : ∀ y ∈ w.queue, x.depth ≤ y.depth
  layers : ∀ n ≤ x.depth, ∀ u, IsDistance deps root n u → u ∈ w.visited

theorem Spreading.expand {w : WaterfallWalk} {x : Source}
    (h : Spreading deps root limit none { w with queue := x :: w.queue }) (hedges : w.edges = [])
    (hx : x.depth < limit) : Expanding deps root limit x w where
  spreading := {
    limited := h.limited
    queued := fun y hy => h.queued y (List.mem_cons_of_mem _ hy)
    levels := fun y hy => h.levels y (List.mem_cons_of_mem _ hy)
    sorted := (List.pairwise_cons.mp h.sorted).2
    ahead := h.ahead
    begun := h.begun
    layers := h.layers
    closed := fun u hu hopen hqueue n hn hdist v hv =>
      h.closed u hu (by simp) (fun y hy => by
        cases List.mem_cons.mp hy with
        | inl he => exact fun hu => hopen (by rw [← hu, he])
        | inr hy => exact hqueue y hy) n hn hdist v hv }
  edges := hedges
  distance := (h.queued x List.mem_cons_self).1
  within := hx
  next := (h.levels x List.mem_cons_self).1
  first := (List.pairwise_cons.mp h.sorted).1
  layers n hn u hu := by
    by_cases hle : n ≤ w.depth
    · exact h.layers n hle u hu
    -- A file one level further down is imported by one that has left the queue.
    · obtain ⟨-, hlevel, -⟩ := h.levels x List.mem_cons_self
      simp only at hlevel
      obtain ⟨k, rfl⟩ : ∃ k, n = k + 1 := ⟨n - 1, by omega⟩
      obtain ⟨p, hp, hedge⟩ := hu.pred
      have hvisited := h.layers k (by simp only; omega) p hp
      have hmem := h.closed p hvisited (by simp) (fun y hy hyp => ?_) k (by omega) hp u hedge
      · simpa [hedges, targets] using hmem
      · have hy' := hp.unique (hyp ▸ (h.queued y hy).1)
        have hfirst : x.depth ≤ y.depth := by
          cases List.mem_cons.mp hy with
          | inl he => exact he ▸ le_rfl
          | inr hy => exact (List.pairwise_cons.mp h.sorted).1 y hy
        omega

/-- A file without imports is done with as soon as it is taken out. -/
theorem Expanding.leave {x : Source} (h : Expanding deps root limit x w) (hdeps : deps x.file = []) :
    Spreading deps root limit none w :=
  { h.spreading with
    closed := fun u hu _ hqueue n hn hdist v hv => by
      by_cases hux : u = x.file
      · simp [hux, hdeps] at hv
      · exact h.spreading.closed u hu (fun he => hux (Option.some.inj he).symm) hqueue n hn hdist v hv }

/-- The imports of a file lead one step further than the file. -/
theorem Expanding.follow {x : Source} {edges : List ImportEdge} (h : Expanding deps root limit x w)
    (hdeps : ∀ v, v ∈ deps x.file ↔ v ∈ targets edges) :
    Spreading deps root limit none (w.follow x edges) where
  limited := h.spreading.limited
  queued := h.spreading.queued
  levels y hy := by
    obtain ⟨-, hle, hlimit⟩ := h.spreading.levels y hy
    have := h.next
    exact ⟨h.first y hy, by simp only [WaterfallWalk.follow]; omega, hlimit⟩
  sorted := h.spreading.sorted
  ahead v hv := ⟨h.distance.1.step ((hdeps v).mpr hv), h.within⟩
  begun := h.spreading.begun
  layers := h.layers
  closed u hu _ hqueue n hn hdist v hv := by
    by_cases hux : u = x.file
    · exact .inr ((hdeps v).mp (hux ▸ hv))
    · refine .inl (show v ∈ w.visited from ?_)
      have hmem := h.spreading.closed u hu (fun he => hux (Option.some.inj he).symm) hqueue n hn
        hdist v hv
      simpa [h.edges, targets] using hmem

/-- What adding the symbols of a file comes to: those whose names are new are found there. -/
structure Adds (file : Url) (depth : Nat) (symbols : List Symbol) (w w' : WaterfallWalk) : Prop where
  same : w' = { w with names := w'.names, found := w'.found }
  found : ∃ new, w'.found = w.found ++ new ∧ ∀ x ∈ new,
    x.source = file ∧ x.depth = depth ∧ x.symbol ∈ symbols ∧ x.symbol.inherited? = none
  isNamed : w.IsNamed → w'.IsNamed
  complete : ∀ s ∈ symbols, s.inherited? = none → s.name ∈ w'.names
  more : ∀ name ∈ w.names, name ∈ w'.names

theorem IsNamed.add (h : w.IsNamed) {x : WaterfallSymbol} (hx : x.symbol.name ∉ w.names) :
    IsNamed { w with names := x.symbol.name :: w.names, found := w.found ++ [x] } := by
  refine ⟨fun name => ?_, ?_⟩
  · simp only [List.mem_cons, List.map_append, List.map_cons, List.map_nil, List.mem_append,
      List.not_mem_nil, or_false]
    rw [h.1 name, or_comm]
  · rw [List.map_append, List.nodup_append]
    refine ⟨h.2, by simp, fun name hname other hother he => hx ?_⟩
    simp only [List.map_cons, List.map_nil, List.mem_singleton] at hother
    rw [← hother, ← he]
    exact (h.1 name).mpr hname

theorem adds_addSymbols (file : Url) (depth : Nat) (via : ImportKind) (symbols : List Symbol)
    (w : WaterfallWalk) : Adds file depth symbols w (addSymbols file depth via symbols w) := by
  induction symbols generalizing w with
  | nil => exact ⟨rfl, ⟨[], by simp [addSymbols], by simp⟩, id, by simp, fun _ h => h⟩
  | cons s rest ih =>
    by_cases hold : s.inherited?.isSome || w.names.contains s.name
    · obtain ⟨hsame, ⟨new, hfound, hnew⟩, hnamed, hcomplete, hmore⟩ := ih w
      simp only [addSymbols, hold, if_true]
      refine ⟨hsame, ⟨new, hfound, fun x hx => ?_⟩, hnamed, fun x hx hown => ?_, hmore⟩
      · obtain ⟨hfile, hdepth, hmem, hown⟩ := hnew x hx
        exact ⟨hfile, hdepth, List.mem_cons_of_mem _ hmem, hown⟩
      · cases List.mem_cons.mp hx with
        | inl he =>
          subst he
          simp only [hown, Option.isSome_none, Bool.false_or, List.contains_iff_mem] at hold
          exact hmore _ hold
        | inr hx => exact hcomplete x hx hown
    · have hfresh : s.inherited? = none ∧ s.name ∉ w.names := by simpa using hold
      obtain ⟨hsame, ⟨new, hfound, hnew⟩, hnamed, hcomplete, hmore⟩ := ih { w with
        names := s.name :: w.names
        found := w.found ++ [⟨s, file, depth, via⟩] }
      simp only [addSymbols, hold]
      refine ⟨hsame, ⟨⟨s, file, depth, via⟩ :: new, by simpa using hfound, fun x hx => ?_⟩,
        fun h => hnamed (h.add (x := ⟨s, file, depth, via⟩) hfresh.2), fun x hx hown => ?_,
        fun name hname => hmore name (List.mem_cons_of_mem _ hname)⟩
      · cases List.mem_cons.mp hx with
        | inl he => exact he ▸ ⟨rfl, rfl, List.mem_cons_self, hfresh.1⟩
        | inr hx =>
          obtain ⟨hfile, hdepth, hmem, hown⟩ := hnew x hx
          exact ⟨hfile, hdepth, List.mem_cons_of_mem _ hmem, hown⟩
      · cases List.mem_cons.mp hx with
        | inl he => exact hmore _ (he ▸ List.mem_cons_self)
        | inr hx => exact hcomplete x hx hown

/-- A file that cannot be read is done with as soon as it is come to. -/
theorem Gathered.miss (h : Gathered deps gives tops root limit (some v) w) (hv : tops v = none)
    (hgives : gives v none) : Gathered deps gives tops root limit none w :=
  { h with
    given := fun u hu hne _ => by
      by_cases huv : u = v
      · rwa [huv, hv]
      · exact h.given u hu hne fun he => huv (Option.some.inj he).symm
    covered := fun u hu hne _ s hs => by
      by_cases huv : u = v
      · simp [huv, hv] at hs
      · exact h.covered u hu hne (fun he => huv (Option.some.inj he).symm) s hs }

theorem Spreading.miss (h : Spreading deps root limit (some v) w) (hdeps : deps v = []) :
    Spreading deps root limit none w :=
  { h with
    closed := fun u hu _ hqueue n hn hdist x hx => by
      by_cases huv : u = v
      · simp [huv, hdeps] at hx
      · exact h.closed u hu (fun he => huv (Option.some.inj he).symm) hqueue n hn hdist x hx }

theorem enter_eq (w : WaterfallWalk) (file : Url) (via : ImportKind) (text : String)
    (symbols : List Symbol) :
    w.enter file via text symbols = { addSymbols file (w.depth + 1) via symbols w with
      queue := w.queue ++ [⟨file, text, w.depth + 1⟩] } := by
  obtain ⟨hsame, -⟩ := adds_addSymbols file (w.depth + 1) via symbols w
  simp only [enter]
  rw [hsame]

theorem visited_enter (w : WaterfallWalk) (file : Url) (via : ImportKind) (text : String)
    (symbols : List Symbol) : (w.enter file via text symbols).visited = w.visited := by
  rw [enter_eq, (adds_addSymbols file (w.depth + 1) via symbols w).same]

theorem queue_enter (w : WaterfallWalk) (file : Url) (via : ImportKind) (text : String)
    (symbols : List Symbol) :
    (w.enter file via text symbols).queue = w.queue ++ [⟨file, text, w.depth + 1⟩] := by
  rw [enter_eq]

theorem edges_enter (w : WaterfallWalk) (file : Url) (via : ImportKind) (text : String)
    (symbols : List Symbol) : (w.enter file via text symbols).edges = w.edges := by
  rw [enter_eq, (adds_addSymbols file (w.depth + 1) via symbols w).same]

/-- A file that was come to and read goes to the end of the queue. -/
theorem Spreading.enter (h : Spreading deps root limit (some v) w)
    (hv : IsDistance deps root (w.depth + 1) v) (hmem : v ∈ w.visited) (hdepth : w.depth < limit)
    (via : ImportKind) (text : String) (symbols : List Symbol) :
    Spreading deps root limit none (w.enter v via text symbols) := by
  obtain ⟨hsame, -⟩ := adds_addSymbols v (w.depth + 1) via symbols w
  rw [enter_eq, hsame]
  refine ⟨h.limited, fun x hx => ?_, fun x hx => ?_, ?_, h.ahead, h.begun, h.layers, ?_⟩
  · cases List.mem_append.mp hx with
    | inl hx => exact h.queued x hx
    | inr hx => cases List.mem_singleton.mp hx; exact ⟨hv, hmem⟩
  · cases List.mem_append.mp hx with
    | inl hx => exact h.levels x hx
    | inr hx =>
      cases List.mem_singleton.mp hx
      exact ⟨Nat.le_succ _, le_rfl, hdepth⟩
  · refine List.pairwise_append.mpr ⟨h.sorted, List.pairwise_singleton _ _, fun x hx y hy => ?_⟩
    cases List.mem_singleton.mp hy
    exact (h.levels x hx).2.1
  · intro u hu _ hqueue n hn hdist x hx
    have huv : v ≠ u := hqueue ⟨v, text, w.depth + 1⟩ (by simp)
    refine h.closed u hu (fun he => huv (Option.some.inj he)) (fun y hy => ?_) n hn hdist x hx
    exact hqueue y (List.mem_append_left _ hy)

/-- What a file has at its top counts once it was visited. -/
theorem Gathered.congr_tops {tops' : Url → Option (List Symbol)}
    (h : Gathered deps gives tops root limit opened w) (htops : ∀ u ∈ w.visited, tops' u = tops u) :
    Gathered deps gives tops' root limit opened w where
  given u hu := htops u hu ▸ h.given u hu
  placed := h.placed
  genuine x hx := by
    obtain ⟨hmem, hrest⟩ := h.genuine x hx
    exact ⟨hmem, htops _ hmem ▸ hrest⟩
  named := h.named
  covered u hu := htops u hu ▸ h.covered u hu
  ordered := h.ordered

/-- The new names among the symbols of a file are found at its distance. -/
theorem Gathered.enter (h : Gathered deps gives tops root limit (some v) w)
    (hv : IsDistance deps root (w.depth + 1) v) (hmem : v ∈ w.visited) (hdepth : w.depth < limit)
    {symbols : List Symbol} (htops : tops v = some symbols) (hgives : gives v (some symbols))
    (via : ImportKind) (text : String) :
    Gathered deps gives tops root limit none (w.enter v via text symbols) := by
  obtain ⟨hsame, ⟨new, hfound, hnew⟩, hnamed, hcomplete, -⟩ :=
    adds_addSymbols v (w.depth + 1) via symbols w
  rw [enter_eq]
  generalize addSymbols v (w.depth + 1) via symbols w = w' at hsame hfound hnamed hcomplete
  have hd : w'.depth = w.depth := by rw [hsame]
  have hvis : w'.visited = w.visited := by rw [hsame]
  have hw' := hnamed h.named
  refine ⟨fun u hu hne _ => ?_, fun x hx => ?_, fun x hx => ?_, hw', fun u hu hne _ s hs hown => ?_,
    ?_⟩
  · simp only [hvis] at hu
    by_cases huv : u = v
    · rwa [huv, htops]
    · exact h.given u hu hne fun he => huv (Option.some.inj he).symm
  · simp only [hfound, List.mem_append] at hx
    simp only [hd]
    cases hx with
    | inl hx => exact h.placed x hx
    | inr hx =>
      obtain ⟨hfile, hdep, -⟩ := hnew x hx
      rw [hfile, hdep]
      exact ⟨hv, by omega, hdepth, le_rfl⟩
  · simp only [hfound, List.mem_append] at hx
    simp only [hvis]
    cases hx with
    | inl hx => exact h.genuine x hx
    | inr hx =>
      obtain ⟨hfile, -, hsym, hown⟩ := hnew x hx
      rw [hfile]
      exact ⟨hmem, by simpa [htops] using hsym, hown⟩
  · simp only [hvis] at hu
    by_cases huv : u = v
    · subst huv
      rw [htops] at hs
      obtain ⟨x, hx, hname⟩ := List.mem_map.mp ((hw'.1 s.name).mp (hcomplete s hs hown))
      refine ⟨x, hx, hname, fun n hn => ?_⟩
      -- what was found before is no farther away than `v`, and what is new is as far
      rw [hn.unique hv]
      simp only [hfound, List.mem_append] at hx
      exact hx.elim (fun hx => (h.placed x hx).2.2.2) fun hx => (hnew x hx).2.1.le
    · obtain ⟨x, hx, hname, hmin⟩ :=
        h.covered u hu hne (fun he => huv (Option.some.inj he).symm) s hs hown
      exact ⟨x, by simp only [hfound]; exact List.mem_append_left _ hx, hname, hmin⟩
  · simp only [hfound]
    refine List.pairwise_append.mpr ⟨h.ordered, ?_, fun x hx y hy => ?_⟩
    · refine List.pairwise_of_forall_mem_list fun x hx y hy => ?_
      rw [(hnew x hx).2.1, (hnew y hy).2.1]
    · rw [(hnew y hy).2.1]
      exact (h.placed x hx).2.2.2

/-- What a walk comes to next: its symbols; a file of the queue; or a new file, at its distance. -/
def Event.IsRight (deps : Url → List Url) (gives : Url → Option (List Symbol) → Prop)
    (tops : Url → Option (List Symbol))
    (root : Url) (limit : Nat) (before : WaterfallWalk) : Event → Prop
  | .finished found => IsWaterfall deps gives tops root limit found
  | .expand x w => Expanding deps root limit x w ∧
    Gathered deps gives tops root limit none w ∧ w.visited = before.visited ∧
    x :: w.queue <:+ before.queue
  | .visit file _ w => Spreading deps root limit (some file) w ∧
    Gathered deps gives tops root limit (some file) w ∧
    IsDistance deps root (w.depth + 1) file ∧ w.depth < limit ∧ file ∉ before.visited ∧
    w.visited = file :: before.visited ∧ w.queue <:+ before.queue

theorem Event.IsRight.of_suffix {e : Event} {before : WaterfallWalk}
    (h : e.IsRight deps gives tops root limit w) (hvisited : w.visited = before.visited)
    (hqueue : w.queue <:+ before.queue) : e.IsRight deps gives tops root limit before := by
  cases e with
  | finished found => exact h
  | expand x walk =>
    obtain ⟨hwalk, hgathered, hsame, hsuffix⟩ := h
    exact ⟨hwalk, hgathered, hsame.trans hvisited, hsuffix.trans hqueue⟩
  | visit file via walk =>
    obtain ⟨hwalk, hgathered, hdist, hdepth, hnew, hsame, hsuffix⟩ := h
    exact ⟨hwalk, hgathered, hdist, hdepth, hvisited ▸ hnew, hvisited ▸ hsame, hsuffix.trans hqueue⟩

theorem isRight_next (hs : Spreading deps root limit none w)
    (hg : Gathered deps gives tops root limit none w) :
    w.next.IsRight deps gives tops root limit w := by
  fun_induction next w with
  | case1 limit' queue e edges depth visited names found he ih =>
    have hskip := hs.skip (w := ⟨limit', queue, edges, depth, visited, names, found⟩) (by simp [he])
    exact (ih hskip (hg.of_eq rfl rfl rfl le_rfl)).of_suffix rfl (List.suffix_refl _)
  | case2 limit' queue e edges depth visited names found dep he hold ih =>
    have hskip := hs.skip (w := ⟨limit', queue, edges, depth, visited, names, found⟩) fun v hv => by
      rw [he] at hv
      simpa [← Option.some.inj hv] using hold
    exact (ih hskip (hg.of_eq rfl rfl rfl le_rfl)).of_suffix rfl (List.suffix_refl _)
  | case3 limit' queue e edges depth visited names found dep he hnew =>
    have hahead := hs.ahead dep (by simp [targets, he])
    have hfresh : dep ∉ visited := by simpa using hnew
    exact ⟨hs.visit (w := ⟨limit', queue, edges, depth, visited, names, found⟩) he,
      hg.visit rfl rfl rfl rfl, hs.isDistance hahead.1 hfresh, hahead.2, hfresh, rfl,
      List.suffix_refl _⟩
  | case4 limit' x queue depth visited names found hlimit ih =>
    have hdrop := hs.drop (w := ⟨limit', queue, [], depth, visited, names, found⟩)
      (hs.limited ▸ hlimit)
    exact (ih hdrop (hg.of_eq rfl rfl rfl le_rfl)).of_suffix rfl (List.suffix_cons _ _)
  | case5 limit' x queue depth visited names found hlimit =>
    have hlimited : limit' = limit := hs.limited
    exact ⟨hs.expand (w := ⟨limit', queue, [], depth, visited, names, found⟩) rfl (by omega),
      hg.of_eq rfl rfl rfl le_rfl, rfl, List.suffix_refl _⟩
  | case6 limit' depth visited names found => exact hg.isWaterfall hs rfl rfl

/-- The reachable files that were not visited, each counted twice, and the files in the queue. -/
noncomputable def rank (deps : Url → List Url) (root : Url) (w : WaterfallWalk) : Nat :=
  2 * {u | ReflTransGen (Edge deps) root u ∧ u ∉ w.visited}.ncard + w.queue.length

theorem rank_lt_of_visit {w' : WaterfallWalk}
    (hfinite : {u | ReflTransGen (Edge deps) root u}.Finite)
    (hreached : ReflTransGen (Edge deps) root v) (hnew : v ∉ w.visited)
    (hvisited : w'.visited = v :: w.visited) (hqueue : w'.queue.length ≤ w.queue.length + 1) :
    w'.rank deps root < w.rank deps root := by
  have hlt : {u | ReflTransGen (Edge deps) root u ∧ u ∉ w'.visited}.ncard <
      {u | ReflTransGen (Edge deps) root u ∧ u ∉ w.visited}.ncard := by
    refine Set.ncard_lt_ncard ⟨fun u hu => ⟨hu.1, fun hmem => hu.2 ?_⟩, fun hsub => ?_⟩
      (hfinite.subset fun u hu => hu.1)
    · exact hvisited ▸ List.mem_cons_of_mem _ hmem
    · exact (hsub ⟨hreached, hnew⟩).2 (hvisited ▸ List.mem_cons_self)
  unfold rank
  omega

theorem rank_lt_of_expand {w' : WaterfallWalk} (hvisited : w'.visited = w.visited)
    (hqueue : w'.queue.length < w.queue.length) : w'.rank deps root < w.rank deps root := by
  unfold rank
  rw [hvisited]
  omega

end WaterfallWalk
end LanguageServer
