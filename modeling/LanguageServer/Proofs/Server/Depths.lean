import LanguageServer.Proofs.Server.Coherence

/-! Walks from one root up to two depths. They go the same way until the nearer limit is reached, and
from there on the other walk comes to files that are further away only. -/
namespace LanguageServer.WaterfallWalk
open Relation

variable {T : Tidings (List Symbol)} {root : Url} {source : String} {d d' : Nat}
  {found other : List WaterfallSymbol} {w v : WaterfallWalk}

/-- The same walk with another limit. -/
def deepen (limit : Nat) (w : WaterfallWalk) : WaterfallWalk := { w with limit }

/-- All imports of the file at hand lead to files that were visited. -/
def IsSpent (w : WaterfallWalk) : Prop := ∀ e ∈ w.edges, ∀ u, e.url? = some u → u ∈ w.visited

/-- What becomes of a walk when it comes to something: only its queue, the imports of the file at hand
and the visited files change. -/
def Event.IsNext (w : WaterfallWalk) : Event → Prop
  | .finished found => found = w.found ∧ w.IsSpent ∧ ∀ x ∈ w.queue, w.limit ≤ x.depth
  | .expand x v => v = { w with queue := v.queue, edges := [] } ∧ x :: v.queue <:+ w.queue ∧
    x.depth < w.limit
  | .visit file _ v => v = { w with edges := v.edges, visited := file :: w.visited } ∧
    v.edges <:+ w.edges ∧ file ∉ w.visited ∧ ∃ e ∈ w.edges, e.url? = some file

/-- An import that leads nowhere, or to a visited file, is passed over. -/
theorem Event.IsNext.skip {limit depth : Nat} {queue : List Source} {e : ImportEdge}
    {edges : List ImportEdge} {visited : List Url} {names : List String} {event : Event}
    (h : event.IsNext ⟨limit, queue, edges, depth, visited, names, found⟩)
    (he : ∀ u, e.url? = some u → u ∈ visited) :
    event.IsNext ⟨limit, queue, e :: edges, depth, visited, names, found⟩ := by
  cases event with
  | finished other =>
    obtain ⟨hfound, hspent, hqueue⟩ := h
    exact ⟨hfound, List.forall_mem_cons.mpr ⟨he, hspent⟩, hqueue⟩
  | expand x v => exact h
  | visit file via v =>
    obtain ⟨hv, hedges, hnew, d, hd, hfile⟩ := h
    exact ⟨hv, hedges.trans (List.suffix_cons _ _), hnew, d, List.mem_cons_of_mem _ hd, hfile⟩

/-- A file that is as far away as the limit is passed over. -/
theorem Event.IsNext.drop {limit depth : Nat} {x : Source} {queue : List Source} {visited : List Url}
    {names : List String} {event : Event}
    (h : event.IsNext ⟨limit, queue, [], depth, visited, names, found⟩) (hx : limit ≤ x.depth) :
    event.IsNext ⟨limit, x :: queue, [], depth, visited, names, found⟩ := by
  cases event with
  | finished other =>
    obtain ⟨hfound, hspent, hqueue⟩ := h
    exact ⟨hfound, hspent, List.forall_mem_cons.mpr ⟨hx, hqueue⟩⟩
  | expand y v =>
    obtain ⟨hv, hqueue, hy⟩ := h
    exact ⟨hv, hqueue.trans (List.suffix_cons _ _), hy⟩
  | visit file via v =>
    obtain ⟨-, -, -, e, he, -⟩ := h
    cases he

theorem isNext_next (w : WaterfallWalk) : w.next.IsNext w := by
  fun_induction next w with
  | case1 limit queue e edges depth visited names found he ih => exact ih.skip (by simp [he])
  | case2 limit queue e edges depth visited names found dep he hold ih =>
    refine ih.skip fun u hu => ?_
    cases he.symm.trans hu
    exact List.contains_iff_mem.mp hold
  | case3 limit queue e edges depth visited names found dep he hnew =>
    exact ⟨rfl, List.suffix_cons _ _, by simpa using hnew, e, List.mem_cons_self, he⟩
  | case4 limit x queue depth visited names found hlimit ih => exact ih.drop hlimit
  | case5 limit x queue depth visited names found hlimit =>
    exact ⟨rfl, List.suffix_rfl, Nat.lt_of_not_le hlimit⟩
  | case6 limit depth visited names found => exact ⟨rfl, by simp [IsSpent], by simp⟩

/-- A walk whose whole queue is as far away as its limit is at its end. -/
theorem next_of_far {limit depth : Nat} {queue : List Source} {visited : List Url}
    {names : List String} (hqueue : ∀ x ∈ queue, limit ≤ x.depth) :
    next ⟨limit, queue, [], depth, visited, names, found⟩ = .finished found := by
  induction queue with
  | nil => rw [next]
  | cons x queue ih =>
    obtain ⟨hx, hqueue⟩ := List.forall_mem_cons.mp hqueue
    rw [next, if_pos hx, ih hqueue]

/-- Unless a walk is at its end, it comes to the same with a greater limit. -/
theorem next_deepen (hsorted : w.queue.Pairwise (·.depth ≤ ·.depth)) (hd : w.limit ≤ d) :
    match w.next with
    | .finished _ => True
    | .expand x v => (w.deepen d).next = .expand x (v.deepen d)
    | .visit file via v => (w.deepen d).next = .visit file via (v.deepen d) := by
  fun_induction next w with
  | case1 limit queue e edges depth visited names found he ih =>
    have hnext : (deepen d ⟨limit, queue, e :: edges, depth, visited, names, found⟩).next =
        (deepen d ⟨limit, queue, edges, depth, visited, names, found⟩).next := by
      simp only [deepen]
      rw [next.eq_def]
      simp only [he]
    rw [hnext]
    exact ih hsorted hd
  | case2 limit queue e edges depth visited names found dep he hold ih =>
    have hnext : (deepen d ⟨limit, queue, e :: edges, depth, visited, names, found⟩).next =
        (deepen d ⟨limit, queue, edges, depth, visited, names, found⟩).next := by
      simp only [deepen]
      rw [next.eq_def]
      simp only [he, hold, if_true]
    rw [hnext]
    exact ih hsorted hd
  | case3 limit queue e edges depth visited names found dep he hnew =>
    simp only [deepen]
    rw [next.eq_def]
    simp only [he, hnew]
    rfl
  | case4 limit x queue depth visited names found hlimit ih =>
    -- the queue is sorted, so nothing in it is near enough
    rw [next_of_far fun y hy => hlimit.trans (List.rel_of_pairwise_cons hsorted hy)]
    trivial
  | case5 limit x queue depth visited names found hlimit =>
    have hnear : ¬ d ≤ x.depth := fun hx => hlimit (hd.trans hx)
    simp only [deepen]
    rw [next, if_neg hnear]
  | case6 limit depth visited names found => trivial

theorem addSymbols_deepen (file : Url) (depth : Nat) (via : ImportKind) (symbols : List Symbol)
    (w : WaterfallWalk) :
    addSymbols file depth via symbols (w.deepen d) = (addSymbols file depth via symbols w).deepen d := by
  induction symbols generalizing w with
  | nil => rfl
  | cons s rest ih =>
    have hnames : (w.deepen d).names = w.names := rfl
    simp only [addSymbols, hnames]
    split
    · exact ih w
    · exact ih { w with
        names := s.name :: w.names
        found := w.found ++ [⟨s, file, depth, via⟩] }

theorem enter_deepen (w : WaterfallWalk) (file : Url) (via : ImportKind) (text : String)
    (symbols : List Symbol) :
    (w.deepen d).enter file via text symbols = (w.enter file via text symbols).deepen d := by
  have hdepth : (w.deepen d).depth = w.depth := rfl
  simp only [enter, hdepth, addSymbols_deepen]
  rfl

/-- How far away the files are that a walk comes to: those in the queue are in order and further
than the file at hand by at most one import, and none is beyond the limit. -/
structure IsLevel (w : WaterfallWalk) : Prop where
  sorted : w.queue.Pairwise (·.depth ≤ ·.depth)
  near : ∀ x ∈ w.queue, w.depth ≤ x.depth ∧ x.depth ≤ w.depth + 1
  within : w.edges ≠ [] → w.depth < w.limit
  found : ∀ x ∈ w.found, x.depth ≤ w.limit

theorem isLevel_start (root : Url) (source : String) (limit : Nat) :
    (start root source limit).IsLevel where
  sorted := List.pairwise_singleton _ _
  near := by simp [start]
  within := fun h => absurd rfl h
  found := by simp [start]

/-- What a walk comes to next leaves it level. -/
theorem IsLevel.of_suffix (hw : w.IsLevel) (hqueue : v.queue <:+ w.queue) (hedges : v.edges <:+ w.edges)
    (hdepth : v.depth = w.depth) (hlimit : v.limit = w.limit) (hfound : v.found = w.found) :
    v.IsLevel where
  sorted := hw.sorted.sublist hqueue.sublist
  near x hx := hdepth ▸ hw.near x (hqueue.subset hx)
  within hopen := by
    rw [hdepth, hlimit]
    exact hw.within fun hnone => hopen (List.suffix_nil.mp (hnone ▸ hedges))
  found := by
    rw [hfound, hlimit]
    exact hw.found

theorem IsLevel.enter (hw : w.IsLevel) (hdepth : w.depth < w.limit) (file : Url) (via : ImportKind)
    (text : String) (symbols : List Symbol) : (w.enter file via text symbols).IsLevel := by
  obtain ⟨hsame, ⟨new, hfound, hnew⟩, -⟩ := adds_addSymbols file (w.depth + 1) via symbols w
  rw [enter_eq, hsame, hfound]
  refine ⟨?_, fun x hx => ?_, hw.within, fun x hx => ?_⟩
  · refine List.pairwise_append.mpr ⟨hw.sorted, List.pairwise_singleton _ _, fun x hx y hy => ?_⟩
    cases List.mem_singleton.mp hy
    exact (hw.near x hx).2
  · obtain hx | hx := List.mem_append.mp hx
    · exact hw.near x hx
    · cases List.mem_singleton.mp hx
      exact ⟨Nat.le_succ _, le_rfl⟩
  · obtain hx | hx := List.mem_append.mp hx
    · exact hw.found x hx
    · rw [(hnew x hx).2.1]
      exact hdepth

theorem Step.isLevel (h : Step T root w v) (hw : w.IsLevel) : v.IsLevel ∧ v.limit = w.limit := by
  have hnext := w.isNext_next
  cases h with
  | @follow u x set hu hset =>
    rw [hu] at hnext
    obtain ⟨hv, hqueue, hx⟩ := hnext
    have hmem : x ∈ w.queue := hqueue.subset List.mem_cons_self
    have hsorted := hw.sorted.sublist hqueue.sublist
    rw [hv]
    refine ⟨⟨(List.pairwise_cons.mp hsorted).2, fun y hy => ?_, fun _ => hx, hw.found⟩, rfl⟩
    -- the queue is sorted, and all of it is at most one step farther than the walk
    have hxnear := hw.near x hmem
    have hynear := hw.near y (hqueue.subset (List.mem_cons_of_mem _ hy))
    have hxy := (List.pairwise_cons.mp hsorted).1 y hy
    simp only [WaterfallWalk.follow]
    omega
  | @leave u x hu hset hroot =>
    rw [hu] at hnext
    obtain ⟨hv, hqueue, -⟩ := hnext
    rw [hv]
    exact ⟨hw.of_suffix ((List.suffix_cons _ _).trans hqueue) (List.nil_suffix) rfl rfl rfl, rfl⟩
  | @miss u file via hu hread =>
    rw [hu] at hnext
    obtain ⟨hv, hedges, -⟩ := hnext
    rw [hv]
    exact ⟨hw.of_suffix List.suffix_rfl hedges rfl rfl rfl, rfl⟩
  | @enter u file via text symbols hu hread =>
    rw [hu] at hnext
    obtain ⟨hv, hedges, -, e, he, -⟩ := hnext
    have hlevel : u.IsLevel := by
      rw [hv]
      exact hw.of_suffix List.suffix_rfl hedges rfl rfl rfl
    have hdepth : u.depth < u.limit := by
      rw [hv]
      exact hw.within (List.ne_nil_of_mem he)
    refine ⟨hlevel.enter hdepth file via text symbols, ?_⟩
    rw [enter_eq, (adds_addSymbols file (u.depth + 1) via symbols u).same, hv]

/-- With a greater limit a walk goes the same way. -/
theorem Step.deepen (h : Step T root w v) (hw : w.IsLevel) (hd : w.limit ≤ d) :
    Step T root (w.deepen d) (v.deepen d) := by
  have hnext := next_deepen hw.sorted hd
  cases h with
  | follow hu hset =>
    rw [hu] at hnext
    exact .follow hnext hset
  | leave hu hset hroot =>
    rw [hu] at hnext
    exact .leave hnext hset hroot
  | miss hu hread =>
    rw [hu] at hnext
    exact .miss hnext hread
  | enter hu hread =>
    rw [hu] at hnext
    rw [← enter_deepen]
    exact .enter hnext hread

theorem steps_deepen (hd : d ≤ d') (h : ReflTransGen (Step T root) (start root source d) w) :
    w.IsLevel ∧ w.limit = d ∧
      ReflTransGen (Step T root) (start root source d') (w.deepen d') := by
  induction h with
  | refl => exact ⟨isLevel_start root source d, rfl, .refl⟩
  | tail _ hstep ih =>
    obtain ⟨hw, hlimit, hreached⟩ := ih
    obtain ⟨hv, hsame⟩ := hstep.isLevel hw
    exact ⟨hv, hsame.trans hlimit, hreached.tail (hstep.deepen hw (hlimit ▸ hd))⟩

/-- What a walk has found beyond a depth; all that it may yet come to is beyond it as well. -/
structure IsBeyond (d : Nat) (found : List WaterfallSymbol) (w : WaterfallWalk) : Prop where
  queue : ∀ x ∈ w.queue, d ≤ x.depth
  edges : w.IsSpent ∨ d ≤ w.depth
  found : ∃ new, w.found = found ++ new ∧ ∀ x ∈ new, d < x.depth

theorem IsBeyond.step (hw : IsBeyond d found w) (h : Step T root w v) : IsBeyond d found v := by
  have hnext := w.isNext_next
  obtain ⟨hqueue, hedges, new, hnew, hfar⟩ := hw
  -- a file that is visited now was not visited, so the imports were not spent
  have hopen {e : ImportEdge} {file : Url} (he : e ∈ w.edges) (hfile : e.url? = some file)
      (hfresh : file ∉ w.visited) : d ≤ w.depth :=
    hedges.resolve_left fun hspent => hfresh (hspent e he file hfile)
  cases h with
  | @follow u x set hu hset =>
    rw [hu] at hnext
    obtain ⟨hv, hsuffix, -⟩ := hnext
    rw [hv]
    refine ⟨fun y hy => hqueue y (hsuffix.subset (List.mem_cons_of_mem _ hy)), .inr ?_, new, hnew, hfar⟩
    exact hqueue x (hsuffix.subset List.mem_cons_self)
  | @leave u x hu hset hroot =>
    rw [hu] at hnext
    obtain ⟨hv, hsuffix, -⟩ := hnext
    rw [hv]
    refine ⟨fun y hy => hqueue y (hsuffix.subset (List.mem_cons_of_mem _ hy)), .inl ?_, new, hnew, hfar⟩
    simp [IsSpent]
  | @miss u file via hu hread =>
    rw [hu] at hnext
    obtain ⟨hv, -, hfresh, e, he, hfile⟩ := hnext
    rw [hv]
    exact ⟨hqueue, .inr (hopen he hfile hfresh), new, hnew, hfar⟩
  | @enter u file via text symbols hu hread =>
    rw [hu] at hnext
    obtain ⟨hv, -, hfresh, e, he, hfile⟩ := hnext
    have hdepth : d ≤ u.depth := by
      rw [hv]
      exact hopen he hfile hfresh
    obtain ⟨hsame, ⟨more, hmore, hplaced⟩, -⟩ := adds_addSymbols file (u.depth + 1) via symbols u
    have hfound : u.found = found ++ new := by
      rw [hv]
      exact hnew
    rw [enter_eq, hsame, hmore, hfound]
    refine ⟨fun y hy => ?_, .inr hdepth, new ++ more, List.append_assoc _ _ _, fun y hy => ?_⟩
    · obtain hy | hy := List.mem_append.mp hy
      · rw [hv] at hy
        exact hqueue y hy
      · cases List.mem_singleton.mp hy
        exact Nat.le_succ_of_le hdepth
    · obtain hy | hy := List.mem_append.mp hy
      · exact hfar y hy
      · rw [(hplaced y hy).2.1]
        exact Nat.lt_succ_of_le hdepth

theorem IsBeyond.steps (hw : IsBeyond d found w) (h : ReflTransGen (Step T root) w v) :
    IsBeyond d found v := by
  induction h with
  | refl => exact hw
  | tail _ hstep ih => exact ih.step hstep

/-- What a walk finds up to a depth is found first by a walk up to a greater depth, and what that one
finds after it is further away. -/
theorem Yields.deepen (hT : T.IsSingle) (h : Yields T root source d found)
    (h' : Yields T root source d' other) (hd : d ≤ d') :
    (∀ x ∈ found, x.depth ≤ d) ∧ ∃ new, other = found ++ new ∧ ∀ x ∈ new, d < x.depth := by
  obtain ⟨w, hw, hend⟩ := h
  obtain ⟨v, hv, hend'⟩ := h'
  obtain ⟨hlevel, rfl, hreached⟩ := steps_deepen hd hw
  have hdone := w.isNext_next
  rw [hend] at hdone
  obtain ⟨rfl, hspent, hqueue⟩ := hdone
  have hbeyond : IsBeyond w.limit w.found (w.deepen d') :=
    ⟨hqueue, .inl hspent, [], (List.append_nil _).symm, by simp⟩
  -- the deeper walk passes by the end of the other one, as it has one way only
  have hon : ReflTransGen (Step T root) (w.deepen d') v := by
    obtain hon | hback := ReflTransGen.total_of_right_unique (step_rightUnique hT) hreached hv
    · exact hon
    · obtain rfl := hback.cases_head.resolve_right fun ⟨_, hstep, _⟩ =>
        not_step_of_finished hend' hstep
      exact .refl
  have hdone' := v.isNext_next
  rw [hend'] at hdone'
  exact ⟨hlevel.found, hdone'.1 ▸ (hbeyond.steps hon).found⟩

/-- A walk up to a smaller depth finds what is not further away, in the same order. -/
theorem Yields.eq_filter (hT : T.IsSingle) (h : Yields T root source d found)
    (h' : Yields T root source d' other) (hd : d ≤ d') :
    found = other.filter (·.depth ≤ d) ∧ found <+: other := by
  obtain ⟨hnear, new, rfl, hfar⟩ := h.deepen hT h' hd
  refine ⟨?_, List.prefix_append _ _⟩
  have hnone : new.filter (fun x => decide (x.depth ≤ d)) = [] :=
    List.filter_eq_nil_iff.mpr fun x hx => by simpa using hfar x hx
  rw [List.filter_append, hnone, List.append_nil, List.filter_eq_self.mpr fun x hx => by
    simpa using hnear x hx]

end LanguageServer.WaterfallWalk

/-! The symbols that a document sees up to two depths, while documents, files and settings stay as they
are. -/
namespace LanguageServer.Survey

variable {o : Oracle} {texts : Set String} {q : Server.Questions} {u : Url} {p : Moment}
  {h asked asked' told told' : List Moment} {m : Machine Survey} {s₀ : Server}

/-- The text that a question is about is the given one, or the one that the document shows. -/
theorem Means.comes_shown {text : Option String} {what : What} {v : what.Value}
    (hv : Means o texts [p] [p] ⟨u, text, what⟩ (.ok (some v))) :
    ∃ t, text.or ((p.shown? u).map (·.text)) = some t ∧
      Comes o texts [p] [p] u t what (.ok v) := by
  generalize hr : (.ok (some v) : Except Failure (Option what.Value)) = r at hv
  cases hv with
  | @given _ t _ r hcomes =>
    cases r with
    | error f => cases hr
    | ok a =>
      cases hr
      exact ⟨t, rfl, hcomes⟩
  | missing => cases hr
  | unstarted => cases hr
  | @read _ _ r x look seen _ hseen hx hcomes =>
    cases r with
    | error f => cases hr
    | ok a =>
      cases hr
      exact ⟨x.text, by rw [(hx.eq_shown? hseen).2]; rfl, hcomes⟩

/-- What is seen up to two depths at one moment differs in what is further away than the smaller one. -/
theorem SeesWaterfall.eq_filter (ho : o.IsSingle) (hinj : Set.InjOn Hash.ofText texts)
    (hm : Describes o p p) {good good' : Url → List Moment → Prop} {d d' : Nat} {hash : UInt64}
    {w w' : Waterfall} (hw : SeesWaterfall o texts good told (u, d, hash) (.ok w))
    (hw' : SeesWaterfall o texts good' told' (u, d', hash) (.ok w')) (htold : told <:+ [p])
    (htold' : told' <:+ [p]) (hd : d ≤ d') :
    w.symbols = w'.symbols.filter (·.depth ≤ d) ∧ w.symbols <+: w'.symbols := by
  have hsingle : (tidings o texts (Tops o) (fun _ _ => True) [p]).IsSingle :=
    tidings_isSingle ho hinj (isSharp_tops ho) hm
  replace hw := hw.mono (fun _ _ _ => trivial) htold
  replace hw' := hw'.mono (fun _ _ _ => trivial) htold'
  obtain ⟨t, ht, hhash, -, -, hyields⟩ := hw
  obtain ⟨t', ht', hhash', -, -, hyields'⟩ := hw'
  cases hinj ht ht' (hhash.trans hhash'.symm)
  exact hyields.eq_filter hsingle hyields' hd

/-- Of two answers about the symbols seen from a document, the one for the smaller depth is the first
part of the other one: all that is not further away, in the same order. It does not matter which one is
asked for first, what is held for it, and whose walk ends first. -/
theorem Quiet.waterfall_prefix (ho : o.Answers q) (hsingle : o.IsSingle)
    (hinj : Set.InjOn Hash.ofText texts) (hidle : s₀.graph.IsIdle) (hheld : UpToDate o texts s₀)
    (hwithin : Moment.IsWithin texts ⟨none, s₀⟩) (hquiet : Quiet o q texts s₀ h m)
    {text : Option String} {depth depth' : Option Nat} {w w' : Waterfall}
    (hw : ⟨asked, ⟨u, text, .waterfall depth⟩, .ok (some w)⟩ ∈ m.state.answers)
    (hw' : ⟨asked', ⟨u, text, .waterfall depth'⟩, .ok (some w')⟩ ∈ m.state.answers)
    (hd : depth.getD s₀.configuration.waterfallDepth ≤
      depth'.getD s₀.configuration.waterfallDepth) :
    w.symbols = w'.symbols.filter (·.depth ≤ depth.getD s₀.configuration.waterfallDepth) ∧
      w.symbols <+: w'.symbols := by
  have hleads : Moment.Leads o texts Set.univ ⟨none, s₀⟩ := fun _ _ _ _ _ _ _ _ _ _ => trivial
  have hmeans {x : Query} {r : Except Failure (Option x.what.Value)} {asked : List Moment}
      (hx : ⟨asked, x, r⟩ ∈ m.state.answers) : Means o texts [⟨none, s₀⟩] [⟨none, s₀⟩] x r :=
    hquiet.means ho hidle hheld hwithin hleads (.refl _) trivial hx
  have hdescribed : Describes o ⟨none, s₀⟩ ⟨none, s₀⟩ :=
    hquiet.described _ hquiet.run.mem_start _ hquiet.run.mem_start
  obtain ⟨t, ht, n, hn, id, told, htold, hsees⟩ := (hmeans hw).comes_shown
  obtain ⟨t', ht', n', hn', id', told', htold', hsees'⟩ := (hmeans hw').comes_shown
  cases ht.symm.trans ht'
  cases List.mem_singleton.mp hn
  cases List.mem_singleton.mp hn'
  exact hsees.eq_filter hsingle hinj hdescribed hsees' htold htold' hd

section Chained

/-- The document `a` inherits the document `b`, and that one the document `c`. -/
def chained (t : String) : List ImportEdge :=
  if t = "a" then [⟨.inheritProgram, "b", some ⟨"/b"⟩, none⟩]
  else if t = "b" then [⟨.inheritProgram, "c", some ⟨"/c"⟩, none⟩]
  else []

def seenUpTo (depth : Nat) : Query := ⟨fileUrl "/a", some "a", .waterfall (some depth)⟩

/-- The waterfall that the question for this depth was answered with. -/
def seenUpTo? (depth : Nat) : Answer → Option Waterfall
  | ⟨_, ⟨u, some t, .waterfall (some d)⟩, .ok (some w)⟩ =>
    if u = fileUrl "/a" ∧ t = "a" ∧ d = depth then some w else none
  | _ => none

theorem eq_of_seenUpTo? {depth : Nat} {x : Answer} {w : Waterfall} (h : seenUpTo? depth x = some w) :
    x = ⟨x.asked, seenUpTo depth, .ok (some w)⟩ := by
  unfold seenUpTo? at h
  split at h
  · obtain ⟨⟨rfl, rfl, rfl⟩, hw⟩ := Option.ite_none_right_eq_some.mp h
    cases hw
    rfl
  · cases h

/-- A server in which `b` and `c` are open, and nothing is known of imports. -/
def shelf : Server :=
  anew (([("/b", "b"), ("/c", "c")].foldl (fun s x => (Event.told (.opened (fileUrl x.1) 1 x.2)).apply s)
    beginner))

/-- The greater depth is asked for first, and the walks for the two depths take turns. -/
def deepening : List Cue :=
  [.ask (seenUpTo 2), .ask (seenUpTo 1)] ++
  [0, 2, 1, 2, 3, 3, 4, 2, 3, 2, 2, 3, 3, 1, 5, 2, 2, 2, 0].map .move

def chainedTexts : List String := ["a", "b", "c"]

theorem injOn_chainedTexts : Set.InjOn Hash.ofText {t | t ∈ chainedTexts} :=
  List.inj_on_of_nodup_map (by decide +kernel)

/-- Up to the depth of one import the symbol of `b` is seen, and after it the one of `c` if one goes
further. -/
theorem Quiet.waterfall_prefix_chained : ∃ (h : List Moment) (m : Machine Survey)
    (asked asked' : List Moment) (w w' : Waterfall),
    Quiet (.scripted chained) (scripted chained) {t | t ∈ chainedTexts} shelf h m ∧
    ⟨asked, seenUpTo 1, .ok (some w)⟩ ∈ m.state.answers ∧
    ⟨asked', seenUpTo 2, .ok (some w')⟩ ∈ m.state.answers ∧
    symbolNames w = ["b"] ∧ symbolNames w' = ["b", "c"] ∧
    w.symbols = w'.symbols.filter (·.depth ≤ 1) ∧ w.symbols <+: w'.symbols := by
  have hplayed : staysQuiet chained chainedTexts [fileUrl "/a", fileUrl "/b", fileUrl "/c"] shelf
      deepening (fun r =>
        (r.2.state.answers.any fun x => (seenUpTo? 1 x).any fun w => symbolNames w == ["b"]) &&
        r.2.state.answers.any fun x => (seenUpTo? 2 x).any fun w => symbolNames w == ["b", "c"]) =
      true := by decide +kernel
  have hcues : ∀ x t, .ask x ∈ deepening → x.text = some t → t ∈ chainedTexts := by
    intro x t hx ht
    have hx : x = seenUpTo 2 ∨ x = seenUpTo 1 := by simpa [deepening] using hx
    obtain rfl | rfl := hx <;> cases ht <;> decide
  obtain ⟨⟨h, m⟩, hquiet, htest⟩ := exists_of_staysQuiet hplayed hcues
  obtain ⟨hnear, hfar⟩ := Bool.and_eq_true_iff.mp htest
  obtain ⟨x, hx, hnear⟩ := List.any_eq_true.mp hnear
  obtain ⟨w, hw, hb⟩ := (Option.any_eq_true _ _).mp hnear
  obtain ⟨x', hx', hfar⟩ := List.any_eq_true.mp hfar
  obtain ⟨w', hw', hbc⟩ := (Option.any_eq_true _ _).mp hfar
  rw [eq_of_seenUpTo? hw] at hx
  rw [eq_of_seenUpTo? hw'] at hx'
  have hwithin : Moment.IsWithin {t | t ∈ chainedTexts} ⟨none, shelf⟩ :=
    Moment.isWithin_of_knows (by decide +kernel)
  have hnew : shelf.graph.IsNew := ⟨_, _, _, rfl⟩
  exact ⟨h, m, x.asked, x'.asked, w, w', hquiet, hx, hx', eq_of_beq hb, eq_of_beq hbc,
    hquiet.waterfall_prefix (answers_scripted _) (isSingle_scripted _) injOn_chainedTexts hnew.isIdle
      (.of_isNew hnew) hwithin hx hx' (by decide)⟩

end Chained
end LanguageServer.Survey
