import LanguageServer.Import.CycleWalk
import LanguageServer.Proofs.Import.WaterfallSearch

/-! What walks come to, by what they are told on the way. Where there is one thing to tell of every
file, there is one outcome. -/
namespace LanguageServer
open Relation

/-- What may be told of files: the text of a file with what comes of it, if it can be read, and the
imports of a text of a file, if they can be extracted. -/
structure Tidings (α : Type) where
  reads : Url → Option (String × α) → Prop
  imports : Url → String → Option ImportSet → Prop

namespace Tidings

variable {α : Type}

/-- Whatever is told here is told there. -/
structure Extends (T S : Tidings α) : Prop where
  reads : ∀ u x, T.reads u x → S.reads u x
  imports : ∀ u t x, T.imports u t x → S.imports u t x

/-- What is told of these files. -/
def within (T : Tidings α) (p : Url → Prop) : Tidings α where
  reads u x := p u ∧ T.reads u x
  imports u t x := p u ∧ T.imports u t x

/-- By what is told, imports lead from these files to these files. -/
def Leads (T : Tidings α) (p : Url → Prop) : Prop :=
  ∀ u t set, p u → T.imports u t (some set) → ∀ e ∈ set.edges, ∀ v, e.url? = some v → p v

/-- One thing is told of every file and every text. -/
structure IsSingle (T : Tidings α) : Prop where
  reads : ∀ u x y, T.reads u x → T.reads u y → x = y
  imports : ∀ u t x y, T.imports u t x → T.imports u t y → x = y

end Tidings

namespace WaterfallWalk

/-- A walk goes on by what it is told. A root whose imports cannot be extracted ends it. -/
inductive Step (T : Tidings (List Symbol)) (root : Url) : WaterfallWalk → WaterfallWalk → Prop
  | follow {w v : WaterfallWalk} {x : Source} {set : ImportSet} : w.next = .expand x v →
    T.imports x.file x.text (some set) → Step T root w (v.follow x set.edges)
  | leave {w v : WaterfallWalk} {x : Source} : w.next = .expand x v →
    T.imports x.file x.text none → x.file ≠ root → Step T root w v
  | miss {w v : WaterfallWalk} {file : Url} {via : ImportKind} : w.next = .visit file via v →
    T.reads file none → Step T root w v
  | enter {w v : WaterfallWalk} {file : Url} {via : ImportKind} {text : String}
    {symbols : List Symbol} : w.next = .visit file via v → T.reads file (some (text, symbols)) →
    Step T root w (v.enter file via text symbols)

/-- What a walk from a root finds when it is told these things. -/
def Yields (T : Tidings (List Symbol)) (root : Url) (source : String) (limit : Nat)
    (found : List WaterfallSymbol) : Prop :=
  ∃ w, ReflTransGen (Step T root) (start root source limit) w ∧ w.next = .finished found

/-- A walk that is told these things ends at its root, whose imports cannot be extracted. -/
def Fails (T : Tidings (List Symbol)) (root : Url) (source : String) (limit : Nat) : Prop :=
  ∃ w x v, ReflTransGen (Step T root) (start root source limit) w ∧ w.next = .expand x v ∧
    x.file = root ∧ T.imports x.file x.text none

variable {T S : Tidings (List Symbol)} {root : Url} {source : String} {limit : Nat}
  {found other : List WaterfallSymbol}

theorem Step.mono {w v : WaterfallWalk} (h : Step T root w v) (hTS : T.Extends S) :
    Step S root w v := by
  cases h with
  | follow hw hx => exact .follow hw (hTS.imports _ _ _ hx)
  | leave hw hx hroot => exact .leave hw (hTS.imports _ _ _ hx) hroot
  | miss hw hx => exact .miss hw (hTS.reads _ _ hx)
  | enter hw hx => exact .enter hw (hTS.reads _ _ hx)

theorem steps_mono {w v : WaterfallWalk} (h : ReflTransGen (Step T root) w v)
    (hTS : T.Extends S) : ReflTransGen (Step S root) w v :=
  ReflTransGen.mono (fun _ _ hstep => hstep.mono hTS) _ _ h

theorem Yields.mono (h : Yields T root source limit found) (hTS : T.Extends S) :
    Yields S root source limit found := by
  obtain ⟨w, hreached, hend⟩ := h
  exact ⟨w, steps_mono hreached hTS, hend⟩

theorem Fails.mono (h : Fails T root source limit) (hTS : T.Extends S) :
    Fails S root source limit := by
  obtain ⟨w, x, v, hreached, hnext, hroot, himports⟩ := h
  exact ⟨w, x, v, steps_mono hreached hTS, hnext, hroot, hTS.imports _ _ _ himports⟩

theorem step_rightUnique (hT : T.IsSingle) : Relator.RightUnique (Step T root) := by
  intro w v v' hv hv'
  cases hv with
  | follow hw hx =>
    cases hv' with
    | follow hw' hx' =>
      cases hw.symm.trans hw'
      cases hT.imports _ _ _ _ hx hx'
      rfl
    | leave hw' hx' =>
      cases hw.symm.trans hw'
      cases hT.imports _ _ _ _ hx hx'
    | miss hw' => cases hw.symm.trans hw'
    | enter hw' => cases hw.symm.trans hw'
  | leave hw hx =>
    cases hv' with
    | follow hw' hx' =>
      cases hw.symm.trans hw'
      cases hT.imports _ _ _ _ hx hx'
    | leave hw' =>
      cases hw.symm.trans hw'
      rfl
    | miss hw' => cases hw.symm.trans hw'
    | enter hw' => cases hw.symm.trans hw'
  | miss hw hx =>
    cases hv' with
    | follow hw' => cases hw.symm.trans hw'
    | leave hw' => cases hw.symm.trans hw'
    | miss hw' =>
      cases hw.symm.trans hw'
      rfl
    | enter hw' hx' =>
      cases hw.symm.trans hw'
      cases hT.reads _ _ _ hx hx'
  | enter hw hx =>
    cases hv' with
    | follow hw' => cases hw.symm.trans hw'
    | leave hw' => cases hw.symm.trans hw'
    | miss hw' hx' =>
      cases hw.symm.trans hw'
      cases hT.reads _ _ _ hx hx'
    | enter hw' hx' =>
      cases hw.symm.trans hw'
      cases hT.reads _ _ _ hx hx'
      rfl

/-- What a walk comes to next is taken from its queue, or is an import of the file at hand. -/
theorem next_spec (w : WaterfallWalk) :
    match w.next with
    | .finished _ => True
    | .expand x v => x :: v.queue <:+ w.queue ∧ v.edges = []
    | .visit file _ v =>
      v.queue <:+ w.queue ∧ v.edges <:+ w.edges ∧ ∃ e ∈ w.edges, e.url? = some file := by
  fun_induction next w with
  | case1 limit queue e edges depth visited names found he ih =>
    split at ih
    · trivial
    · exact ih
    · obtain ⟨hqueue, hedges, d, hd, hfile⟩ := ih
      exact ⟨hqueue, List.IsSuffix.trans hedges (List.suffix_cons _ _), d,
        List.mem_cons_of_mem _ hd, hfile⟩
  | case2 limit queue e edges depth visited names found dep he hold ih =>
    split at ih
    · trivial
    · exact ih
    · obtain ⟨hqueue, hedges, d, hd, hfile⟩ := ih
      exact ⟨hqueue, List.IsSuffix.trans hedges (List.suffix_cons _ _), d,
        List.mem_cons_of_mem _ hd, hfile⟩
  | case3 limit queue e edges depth visited names found dep he hnew =>
    exact ⟨List.suffix_rfl, List.suffix_cons _ _, e, List.mem_cons_self, he⟩
  | case4 limit x queue depth visited names found hlimit ih =>
    split at ih
    · trivial
    · exact ⟨List.IsSuffix.trans ih.1 (List.suffix_cons _ _), ih.2⟩
    · exact ⟨List.IsSuffix.trans ih.1 (List.suffix_cons _ _), ih.2⟩
  | case5 limit x queue depth visited names found hlimit => exact ⟨List.suffix_rfl, rfl⟩
  | case6 limit depth visited names found => trivial

/-- All that a walk may come to is among these files. -/
structure Stays (p : Url → Prop) (w : WaterfallWalk) : Prop where
  queue : ∀ x ∈ w.queue, p x.file
  edges : ∀ e ∈ w.edges, ∀ u, e.url? = some u → p u

section Within

variable {p : Url → Prop} {w v : WaterfallWalk}

theorem Step.within (hT : T.Leads p) (hw : Stays p w) (h : Step T root w v) :
    Step (T.within p) root w v ∧ Stays p v := by
  have hnext := w.next_spec
  cases h with
  | follow hev himports =>
    rw [hev] at hnext
    have hfile := hw.queue _ (hnext.1.subset List.mem_cons_self)
    refine ⟨.follow hev ⟨hfile, himports⟩, fun x hx => ?_, hT _ _ _ hfile himports⟩
    exact hw.queue x (hnext.1.subset (List.mem_cons_of_mem _ hx))
  | leave hev himports hroot =>
    rw [hev] at hnext
    have hfile := hw.queue _ (hnext.1.subset List.mem_cons_self)
    refine ⟨.leave hev ⟨hfile, himports⟩ hroot, fun x hx => ?_, by simp [hnext.2]⟩
    exact hw.queue x (hnext.1.subset (List.mem_cons_of_mem _ hx))
  | miss hev hread =>
    rw [hev] at hnext
    obtain ⟨hqueue, hedges, e, he, hfile⟩ := hnext
    exact ⟨.miss hev ⟨hw.edges e he _ hfile, hread⟩, fun x hx => hw.queue x (hqueue.subset hx),
      fun d hd => hw.edges d (hedges.subset hd)⟩
  | enter hev hread =>
    rw [hev] at hnext
    obtain ⟨hqueue, hedges, e, he, hfile⟩ := hnext
    have hin := hw.edges e he _ hfile
    refine ⟨.enter hev ⟨hin, hread⟩, fun x hx => ?_, fun d hd => ?_⟩
    · rw [queue_enter] at hx
      obtain hx | hx := List.mem_append.mp hx
      · exact hw.queue x (hqueue.subset hx)
      · exact List.mem_singleton.mp hx ▸ hin
    · rw [edges_enter] at hd
      exact hw.edges d (hedges.subset hd)

theorem steps_within (hT : T.Leads p) (hw : Stays p w) (h : ReflTransGen (Step T root) w v) :
    ReflTransGen (Step (T.within p) root) w v ∧ Stays p v := by
  induction h with
  | refl => exact ⟨.refl, hw⟩
  | tail _ hstep ih =>
    obtain ⟨hstep, hstays⟩ := hstep.within hT ih.2
    exact ⟨ih.1.tail hstep, hstays⟩

theorem stays_start (hroot : p root) (source : String) (limit : Nat) :
    Stays p (start root source limit) := ⟨by simpa [start] using hroot, by simp [start]⟩

/-- A walk only needs to be told of files that imports lead to. -/
theorem Yields.within (h : Yields T root source limit found) (hT : T.Leads p) (hroot : p root) :
    Yields (T.within p) root source limit found := by
  obtain ⟨w, hreached, hend⟩ := h
  exact ⟨w, (steps_within hT (stays_start hroot source limit) hreached).1, hend⟩

theorem Fails.within (h : Fails T root source limit) (hT : T.Leads p) (hroot : p root) :
    Fails (T.within p) root source limit := by
  obtain ⟨w, x, v, hreached, hev, hx, himports⟩ := h
  exact ⟨w, x, v, (steps_within hT (stays_start hroot source limit) hreached).1, hev, hx,
    hx ▸ hroot, himports⟩

end Within

/-- A walk that has come to its end goes no further. -/
theorem not_step_of_finished {w v : WaterfallWalk} (h : w.next = .finished found) :
    ¬ Step T root w v := by
  intro hstep
  cases hstep with
  | follow hw => cases h.symm.trans hw
  | leave hw => cases h.symm.trans hw
  | miss hw => cases h.symm.trans hw
  | enter hw => cases h.symm.trans hw

end WaterfallWalk

/-- Two ways from one place to an end are one way, where every place has one way on. -/
theorem end_unique {β : Type} {r : β → β → Prop} (hr : Relator.RightUnique r) {a b c : β}
    (hb : ReflTransGen r a b) (hc : ReflTransGen r a c) (hbend : ∀ x, ¬ r b x)
    (hcend : ∀ x, ¬ r c x) : b = c := by
  obtain h | h := ReflTransGen.total_of_right_unique hr hb hc
  · exact h.cases_head.resolve_right fun ⟨x, hx, _⟩ => hbend x hx
  · exact (h.cases_head.resolve_right fun ⟨x, hx, _⟩ => hcend x hx).symm

theorem WaterfallWalk.Yields.unique {T : Tidings (List Symbol)} {root : Url} {source : String}
    {limit : Nat} {found other : List WaterfallSymbol} (hT : T.IsSingle)
    (h : Yields T root source limit found) (h' : Yields T root source limit other) :
    found = other := by
  obtain ⟨w, hw, hend⟩ := h
  obtain ⟨w', hw', hend'⟩ := h'
  obtain rfl := end_unique (step_rightUnique hT) hw hw' (fun _ => not_step_of_finished hend)
    fun _ => not_step_of_finished hend'
  cases hend.symm.trans hend'
  rfl

/-- A walk that finds something has not ended at its root. -/
theorem WaterfallWalk.Yields.not_fails {T : Tidings (List Symbol)} {root : Url} {source : String}
    {limit : Nat} {found : List WaterfallSymbol} (hT : T.IsSingle)
    (h : Yields T root source limit found) : ¬ Fails T root source limit := by
  rintro ⟨w, x, v, hw, hnext, hroot, himports⟩
  obtain ⟨w', hw', hend⟩ := h
  have hon : ReflTransGen (Step T root) w w' := by
    obtain hon | hback := ReflTransGen.total_of_right_unique (step_rightUnique hT) hw hw'
    · exact hon
    · obtain rfl := hback.cases_head.resolve_right fun ⟨_, hstep, _⟩ =>
        not_step_of_finished hend hstep
      exact .refl
  obtain rfl | ⟨_, hstep, -⟩ := hon.cases_head
  · cases hnext.symm.trans hend
  · cases hstep with
    | follow hw hx =>
      cases hnext.symm.trans hw
      cases hT.imports _ _ _ _ himports hx
    | leave hw _ hne =>
      cases hnext.symm.trans hw
      exact hne hroot
    | miss hw => cases hnext.symm.trans hw
    | enter hw => cases hnext.symm.trans hw

namespace CycleWalk

/-- All that a search may come to is among these files. -/
def Stays (p : Url → Prop) (w : CycleWalk) : Prop := ∀ f ∈ w.stack, ∀ u ∈ f.remaining, p u

/-- What a search comes to next is an import of a file on the way. -/
theorem stays_next {p : Url → Prop} {w : CycleWalk} (hw : Stays p w) :
    match w.next with
    | .verdict _ => True
    | .visit file v => p file ∧ Stays p v := by
  have hskip {file dep : Url} {remaining : List Url} {rest : List Frame} {finished : List Url}
      (hw : Stays p ⟨⟨file, dep :: remaining⟩ :: rest, finished⟩) :
      Stays p ⟨⟨file, remaining⟩ :: rest, finished⟩ := by
    obtain ⟨hfile, hrest⟩ := List.forall_mem_cons.mp hw
    exact List.forall_mem_cons.mpr ⟨fun u hu => hfile u (List.mem_cons_of_mem _ hu), hrest⟩
  fun_induction next w with
  | case1 finished => trivial
  | case2 file rest finished ih => exact ih fun f hf => hw f (List.mem_cons_of_mem _ hf)
  | case3 => trivial
  | case4 file dep remaining rest finished stack hopen hdone ih => exact ih (hskip hw)
  | case5 file dep remaining rest finished stack hopen hnew =>
    exact ⟨hw _ List.mem_cons_self dep List.mem_cons_self, hskip hw⟩

/-- A search goes on by what it is told. -/
inductive Step (T : Tidings Unit) : CycleWalk → CycleWalk → Prop
  | miss {w v : CycleWalk} {file : Url} : w.next = .visit file v → T.reads file none →
    Step T w (v.enter file none)
  | enter {w v : CycleWalk} {file : Url} {text : String} {set : ImportSet} :
    w.next = .visit file v → T.reads file (some (text, ())) → T.imports file text (some set) →
    Step T w (v.enter file (some set.urls))
  | blank {w v : CycleWalk} {file : Url} {text : String} : w.next = .visit file v →
    T.reads file (some (text, ())) → T.imports file text none → Step T w (v.enter file (some []))

/-- The verdict of a search from a root that is told these things. -/
def Yields (T : Tidings Unit) (root : Url) (source : String) (verdict : CycleVerdict) : Prop :=
  ∃ set w, T.imports root source (some set) ∧ ReflTransGen (Step T) (start root set.urls) w ∧
    w.next = .verdict verdict

/-- A search that is told this has nowhere to begin, as the imports of its root cannot be extracted. -/
def Fails (T : Tidings Unit) (root : Url) (source : String) : Prop := T.imports root source none

variable {T S : Tidings Unit} {root : Url} {source : String} {verdict other : CycleVerdict}

theorem Step.mono {w v : CycleWalk} (h : Step T w v) (hTS : T.Extends S) : Step S w v := by
  cases h with
  | miss hw hx => exact .miss hw (hTS.reads _ _ hx)
  | enter hw hx hset => exact .enter hw (hTS.reads _ _ hx) (hTS.imports _ _ _ hset)
  | blank hw hx hset => exact .blank hw (hTS.reads _ _ hx) (hTS.imports _ _ _ hset)

theorem steps_mono {w v : CycleWalk} (h : ReflTransGen (Step T) w v) (hTS : T.Extends S) :
    ReflTransGen (Step S) w v := ReflTransGen.mono (fun _ _ hstep => hstep.mono hTS) _ _ h

theorem Yields.mono (h : Yields T root source verdict) (hTS : T.Extends S) :
    Yields S root source verdict := by
  obtain ⟨set, w, hset, hreached, hend⟩ := h
  exact ⟨set, w, hTS.imports _ _ _ hset, steps_mono hreached hTS, hend⟩

theorem step_rightUnique (hT : T.IsSingle) : Relator.RightUnique (Step T) := by
  intro w v v' hv hv'
  cases hv with
  | miss hw hx =>
    cases hv' with
    | miss hw' =>
      cases hw.symm.trans hw'
      rfl
    | enter hw' hx' =>
      cases hw.symm.trans hw'
      cases hT.reads _ _ _ hx hx'
    | blank hw' hx' =>
      cases hw.symm.trans hw'
      cases hT.reads _ _ _ hx hx'
  | enter hw hx hset =>
    cases hv' with
    | miss hw' hx' =>
      cases hw.symm.trans hw'
      cases hT.reads _ _ _ hx hx'
    | enter hw' hx' hset' =>
      cases hw.symm.trans hw'
      cases hT.reads _ _ _ hx hx'
      cases hT.imports _ _ _ _ hset hset'
      rfl
    | blank hw' hx' hset' =>
      cases hw.symm.trans hw'
      cases hT.reads _ _ _ hx hx'
      cases hT.imports _ _ _ _ hset hset'
  | blank hw hx hset =>
    cases hv' with
    | miss hw' hx' =>
      cases hw.symm.trans hw'
      cases hT.reads _ _ _ hx hx'
    | enter hw' hx' hset' =>
      cases hw.symm.trans hw'
      cases hT.reads _ _ _ hx hx'
      cases hT.imports _ _ _ _ hset hset'
    | blank hw' =>
      cases hw.symm.trans hw'
      rfl

section Within

variable {p : Url → Prop} {w v : CycleWalk}

theorem Step.within (hT : T.Leads p) (hw : Stays p w) (h : Step T w v) :
    Step (T.within p) w v ∧ Stays p v := by
  have hnext := stays_next hw
  cases h with
  | miss hev hread =>
    rw [hev] at hnext
    exact ⟨.miss hev ⟨hnext.1, hread⟩, hnext.2⟩
  | enter hev hread himports =>
    rw [hev] at hnext
    refine ⟨.enter hev ⟨hnext.1, hread⟩ ⟨hnext.1, himports⟩, List.forall_mem_cons.mpr ⟨?_, hnext.2⟩⟩
    intro u hu
    obtain ⟨e, he, hu⟩ := List.mem_filterMap.mp ((WaterfallWalk.mem_urls _).mp hu)
    exact hT _ _ _ hnext.1 himports e he u hu
  | blank hev hread himports =>
    rw [hev] at hnext
    exact ⟨.blank hev ⟨hnext.1, hread⟩ ⟨hnext.1, himports⟩,
      List.forall_mem_cons.mpr ⟨by simp, hnext.2⟩⟩

/-- A search only needs to be told of files that imports lead to. -/
theorem Yields.within (h : Yields T root source verdict) (hT : T.Leads p) (hroot : p root) :
    Yields (T.within p) root source verdict := by
  obtain ⟨set, w, hset, hreached, hend⟩ := h
  refine ⟨set, w, ⟨hroot, hset⟩, And.left (b := Stays p w) ?_, hend⟩
  clear hend
  induction hreached with
  | refl =>
    refine ⟨.refl, List.forall_mem_cons.mpr ⟨fun u hu => ?_, by simp⟩⟩
    obtain ⟨e, he, hu⟩ := List.mem_filterMap.mp ((WaterfallWalk.mem_urls _).mp hu)
    exact hT _ _ _ hroot hset e he u hu
  | tail _ hstep ih =>
    obtain ⟨hstep, hstays⟩ := hstep.within hT ih.2
    exact ⟨ih.1.tail hstep, hstays⟩

end Within

theorem not_step_of_verdict {w v : CycleWalk} (h : w.next = .verdict verdict) : ¬ Step T w v := by
  intro hstep
  cases hstep with
  | miss hw => cases h.symm.trans hw
  | enter hw => cases h.symm.trans hw
  | blank hw => cases h.symm.trans hw

theorem Yields.unique (hT : T.IsSingle) (h : Yields T root source verdict)
    (h' : Yields T root source other) : verdict = other := by
  obtain ⟨set, w, hset, hw, hend⟩ := h
  obtain ⟨set', w', hset', hw', hend'⟩ := h'
  cases hT.imports _ _ _ _ hset hset'
  obtain rfl := end_unique (step_rightUnique hT) hw hw' (fun _ => not_step_of_verdict hend)
    fun _ => not_step_of_verdict hend'
  cases hend.symm.trans hend'
  rfl

theorem Yields.not_fails (hT : T.IsSingle) (h : Yields T root source verdict) :
    ¬ Fails T root source := fun hfails => by
  obtain ⟨_, _, hset, -⟩ := h
  cases hT.imports _ _ _ _ hset hfails

end CycleWalk
end LanguageServer
