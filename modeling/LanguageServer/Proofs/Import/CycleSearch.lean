import LanguageServer.Import.CycleWalk
import Mathlib.Data.List.Chain
import Mathlib.Data.Set.Card
import Mathlib.Logic.Relation

/-! What the search for a cycle knows at every step, told by the imports of every file: where its
stack leads, which files are finished and that no cycle lies among those. -/
namespace LanguageServer
open Relation

variable {deps : Url → List Url} {root : Url}

/-- One file imports another. -/
def Edge (deps : Url → List Url) (u v : Url) : Prop := v ∈ deps u

/-- A closed path along edges that meets no file twice. -/
structure IsCycle (r : Url → Url → Prop) (path : List Url) : Prop where
  long : 2 ≤ path.length
  closed : path.head? = path.getLast?
  simple : path.dropLast.Nodup
  linked : path.IsChain r

/-- A cycle that the root leads to, or none anywhere below it. -/
def CycleVerdict.IsRight (deps : Url → List Url) (root : Url) : CycleVerdict → Prop
  | .cycle path => IsCycle (Edge deps) path ∧
    ∃ u, path.head? = some u ∧ ReflTransGen (Edge deps) root u
  | .acyclic => ∀ u, ReflTransGen (Edge deps) root u → ¬ TransGen (Edge deps) u u

/-- Files closed under imports are not left again. -/
theorem mem_of_transGen {files : List Url} (closed : ∀ u ∈ files, ∀ v ∈ deps u, v ∈ files)
    {u v : Url} (hu : u ∈ files) (h : TransGen (Edge deps) u v) : v ∈ files := by
  induction h with
  | single h => exact closed _ hu _ h
  | tail _ h ih => exact closed _ ih _ h

theorem mem_of_reflTransGen {files : List Url} (closed : ∀ u ∈ files, ∀ v ∈ deps u, v ∈ files)
    {u v : Url} (hu : u ∈ files) (h : ReflTransGen (Edge deps) u v) : v ∈ files := by
  cases reflTransGen_iff_eq_or_transGen.mp h with
  | inl h => rwa [h]
  | inr h => exact mem_of_transGen closed hu h

namespace CycleWalk

/-- Every frame has followed some first imports of its file. They are finished, or the file just
above it, which is the last of them. -/
def Linked (deps : Url → List Url) (finished : List Url) : Option Url → List Frame → Prop
  | _, [] => True
  | above, f :: rest => (∃ followed, deps f.file = followed ++ f.remaining ∧
      (∀ v ∈ followed, v ∈ finished ∨ above = some v) ∧ ∀ v, above = some v → v ∈ followed) ∧
    Linked deps finished (some f.file) rest

/-- The files that were come to already. -/
def Seen (w : CycleWalk) (u : Url) : Prop := u ∈ w.stack.map (·.file) ∨ u ∈ w.finished

/-- What holds of a walk; `above` is the file that was come to and not entered yet. -/
structure Searching (deps : Url → List Url) (root : Url) (above : Option Url) (w : CycleWalk) :
    Prop where
  linked : Linked deps w.finished above w.stack
  nodup : (w.stack.map (·.file)).Nodup
  apart : ∀ u ∈ w.stack.map (·.file), u ∉ w.finished
  closed : ∀ u ∈ w.finished, ∀ v ∈ deps u, v ∈ w.finished
  loopless : ∀ u ∈ w.finished, ¬ TransGen (Edge deps) u u
  reached : ∀ u ∈ w.stack.map (·.file), ReflTransGen (Edge deps) root u
  begun : w.Seen root

variable {finished : List Url} {above : Option Url} {stack : List Frame} {w : CycleWalk} {u v : Url}

theorem Linked.mono {more : List Url} (hmore : ∀ v ∈ finished, v ∈ more)
    (h : Linked deps finished above stack) : Linked deps more above stack := by
  induction stack generalizing above with
  | nil => trivial
  | cons f rest ih =>
    obtain ⟨⟨followed, hdeps, hdone, habove⟩, hrest⟩ := h
    exact ⟨⟨followed, hdeps, fun v hv => (hdone v hv).imp_left (hmore v), habove⟩, ih hrest⟩

/-- The file above a stack is settled once it is finished. -/
theorem Linked.settle {more : List Url} (hmore : ∀ v ∈ finished, v ∈ more) (hv : v ∈ more)
    (h : Linked deps finished (some v) stack) : Linked deps more none stack := by
  cases stack with
  | nil => trivial
  | cons f rest =>
    obtain ⟨⟨followed, hdeps, hdone, -⟩, hrest⟩ := h
    refine ⟨⟨followed, hdeps, fun x hx => ?_, by simp⟩, hrest.mono hmore⟩
    cases hdone x hx with
    | inl hx => exact .inl (hmore x hx)
    | inr hx => exact .inl (Option.some.inj hx ▸ hv)

/-- The topmost frame follows its next import. -/
theorem Linked.advance {file : Url} {remaining : List Url}
    (h : Linked deps finished none (⟨file, v :: remaining⟩ :: stack)) :
    Linked deps finished (some v) (⟨file, remaining⟩ :: stack) := by
  obtain ⟨⟨followed, hdeps, hdone, -⟩, hrest⟩ := h
  refine ⟨⟨followed ++ [v], by simp [hdeps], fun x hx => ?_, by simp⟩, hrest⟩
  cases List.mem_append.mp hx with
  | inl hx => exact .inl ((hdone x hx).resolve_right (by simp))
  | inr hx => exact .inr (by simp_all)

/-- A frame imports the file above it. -/
theorem Linked.edge {f : Frame} (h : Linked deps finished (some v) (f :: stack)) :
    Edge deps f.file v := by
  obtain ⟨⟨followed, hdeps, -, habove⟩, -⟩ := h
  rw [Edge, hdeps]
  exact List.mem_append_left _ (habove v rfl)

theorem downTo_isPrefix (u : Url) (stack : List Frame) : downTo u stack <+: stack := by
  induction stack with
  | nil => exact List.prefix_rfl
  | cons f rest ih =>
    by_cases h : f.file = u
    · simp [downTo, h]
    · simpa [downTo, h] using ih

theorem map_downTo (h : u ∈ stack.map (·.file)) :
    ∃ higher, (downTo u stack).map (·.file) = higher ++ [u] := by
  induction stack with
  | nil => simp at h
  | cons f rest ih =>
    by_cases hf : f.file = u
    · exact ⟨[], by simp [downTo, hf]⟩
    · obtain ⟨higher, hh⟩ := ih (by simpa [Ne.symm hf] using h)
      exact ⟨f.file :: higher, by simp [downTo, hf, hh]⟩

theorem isChain_downTo (u : Url) (h : Linked deps finished (some v) stack) :
    (((downTo u stack).map (·.file)).reverse ++ [v]).IsChain (Edge deps) := by
  induction stack generalizing v with
  | nil => simp [downTo]
  | cons f rest ih =>
    by_cases hf : f.file = u
    · simpa [downTo, hf] using hf ▸ h.edge
    · simp only [downTo, hf, if_false, List.map_cons, List.reverse_cons, List.append_assoc,
        List.singleton_append]
      exact List.isChain_append_cons_cons.mpr ⟨ih h.2, h.edge, List.isChain_singleton v⟩

/-- What an import of the topmost file to a file on the stack closes is a cycle. -/
theorem isCycle_cycleTo (hu : u ∈ stack.map (·.file)) (hnodup : (stack.map (·.file)).Nodup)
    (h : Linked deps finished (some u) stack) : IsCycle (Edge deps) (cycleTo u stack) := by
  obtain ⟨higher, hh⟩ := map_downTo hu
  have hpath : cycleTo u stack = u :: higher.reverse ++ [u] := by simp [cycleTo, hh]
  refine ⟨by simp [hpath], by rw [hpath, List.getLast?_concat]; rfl, ?_, isChain_downTo u h⟩
  have hsub : ((downTo u stack).map (·.file)).Nodup :=
    hnodup.sublist ((downTo_isPrefix u stack).map _).sublist
  rw [hpath, List.dropLast_concat, ← List.nodup_reverse]
  simpa [hh] using hsub

/-- The first file begins a search. -/
theorem searching_start (root : Url) (deps : Url → List Url) :
    Searching deps root none (start root (deps root)) where
  linked := ⟨⟨[], by simp [start]⟩, trivial⟩
  nodup := by simp [start]
  apart := by simp [start]
  closed := by simp [start]
  loopless := by simp [start]
  reached := by simp [start, ReflTransGen.refl]
  begun := .inl (by simp [start])

/-- A file all of whose imports are finished lies on no cycle. -/
theorem not_transGen_of_finished {files : List Url}
    (closed : ∀ u ∈ files, ∀ v ∈ deps u, v ∈ files) (hdeps : ∀ v ∈ deps u, v ∈ files)
    (hu : u ∉ files) : ¬ TransGen (Edge deps) u u := by
  intro h
  obtain ⟨v, huv, hvu⟩ := TransGen.head'_iff.mp h
  exact hu (mem_of_reflTransGen closed (hdeps v huv) hvu)

/-- The topmost file is finished once all its imports were followed. -/
theorem Searching.pop {file : Url} (h : Searching deps root none ⟨⟨file, []⟩ :: stack, finished⟩) :
    Searching deps root none ⟨stack, file :: finished⟩ := by
  obtain ⟨⟨followed, hdeps, hdone, -⟩, hrest⟩ := h.linked
  have hfollowed : ∀ v ∈ deps file, v ∈ finished := by
    intro v hv
    simp only [List.append_nil] at hdeps
    exact (hdone v (hdeps ▸ hv)).resolve_right (by simp)
  have hfile : file ∉ finished := h.apart file (by simp)
  have hmore : ∀ v ∈ finished, v ∈ file :: finished := fun v hv => List.mem_cons_of_mem _ hv
  have hnodup := List.nodup_cons.mp h.nodup
  constructor
  · exact hrest.settle hmore List.mem_cons_self
  · exact hnodup.2
  · intro u hu hmem
    cases List.mem_cons.mp hmem with
    | inl he => exact hnodup.1 (he ▸ hu)
    | inr hf => exact h.apart u (List.mem_cons_of_mem _ hu) hf
  · intro u hu v hv
    cases List.mem_cons.mp hu with
    | inl he => exact hmore v (hfollowed v (he ▸ hv))
    | inr hf => exact hmore v (h.closed u hf v hv)
  · intro u hu
    cases List.mem_cons.mp hu with
    | inl he => exact he ▸ not_transGen_of_finished h.closed hfollowed hfile
    | inr hf => exact h.loopless u hf
  · exact fun u hu => h.reached u (List.mem_cons_of_mem _ hu)
  · cases h.begun with
    | inl hs =>
      cases List.mem_cons.mp hs with
      | inl he => exact .inr (he ▸ List.mem_cons_self)
      | inr hs => exact .inl hs
    | inr hf => exact .inr (hmore root hf)

/-- The topmost file follows an import; the imported file is come to. -/
theorem Searching.advance {file : Url} {remaining : List Url}
    (h : Searching deps root none ⟨⟨file, v :: remaining⟩ :: stack, finished⟩) :
    Searching deps root (some v) ⟨⟨file, remaining⟩ :: stack, finished⟩ where
  linked := h.linked.advance
  nodup := h.nodup
  apart := h.apart
  closed := h.closed
  loopless := h.loopless
  reached := h.reached
  begun := h.begun

/-- A file that was come to is reachable. -/
theorem Searching.reached_above {f : Frame}
    (h : Searching deps root (some v) ⟨f :: stack, finished⟩) :
    ReflTransGen (Edge deps) root v :=
  (h.reached f.file (by simp)).tail h.linked.edge

/-- A file that is finished already needs no entering. -/
theorem Searching.skip (h : Searching deps root (some v) w) (hv : v ∈ w.finished) :
    Searching deps root none w :=
  { h with linked := h.linked.settle (fun _ hu => hu) hv }

/-- A file that cannot be read has no imports and is finished at once. -/
theorem Searching.enter_none (h : Searching deps root (some v) w) (hv : ¬ w.Seen v)
    (hdeps : deps v = []) : Searching deps root none (w.enter v none) where
  linked := h.linked.settle (fun u hu => List.mem_cons_of_mem _ hu) List.mem_cons_self
  nodup := h.nodup
  apart u hu hmem := by
    cases List.mem_cons.mp hmem with
    | inl he => exact hv (.inl (he ▸ hu))
    | inr hf => exact h.apart u hu hf
  closed u hu x hx := by
    cases List.mem_cons.mp hu with
    | inl he => simp [he, hdeps] at hx
    | inr hf => exact List.mem_cons_of_mem _ (h.closed u hf x hx)
  loopless u hu := by
    cases List.mem_cons.mp hu with
    | inl he =>
      refine he ▸ not_transGen_of_finished h.closed (by simp [hdeps]) fun hf => hv (.inr hf)
    | inr hf => exact h.loopless u hf
  reached := h.reached
  begun := h.begun.imp_right (List.mem_cons_of_mem _)

/-- A file that was come to goes on top of the stack with its imports. -/
theorem Searching.enter_some (h : Searching deps root (some v) w) (hv : ¬ w.Seen v)
    (hreached : ReflTransGen (Edge deps) root v) :
    Searching deps root none (w.enter v (some (deps v))) where
  linked := ⟨⟨[], by simp⟩, h.linked⟩
  nodup := List.nodup_cons.mpr ⟨fun hs => hv (.inl hs), h.nodup⟩
  apart u hu hf := by
    cases List.mem_cons.mp hu with
    | inl he => cases he; exact hv (.inr hf)
    | inr hs => exact h.apart u hs hf
  closed := h.closed
  loopless := h.loopless
  reached u hu := by
    cases List.mem_cons.mp hu with
    | inl he => exact he ▸ hreached
    | inr hs => exact h.reached u hs
  begun := h.begun.imp_left (List.mem_cons_of_mem _)

/-- A search that has finished everything it came to has met no cycle. -/
theorem Searching.isRight_acyclic (h : Searching deps root none ⟨[], finished⟩) :
    CycleVerdict.acyclic.IsRight deps root := by
  have hroot : root ∈ finished := h.begun.resolve_left (by simp)
  exact fun u hu => h.loopless u (mem_of_reflTransGen h.closed hroot hu)

/-- What a walk comes to next is a right verdict, or a new file to enter. -/
def Event.IsRight (deps : Url → List Url) (root : Url) (before : CycleWalk) : Event → Prop
  | .verdict v => v.IsRight deps root
  | .visit file w => Searching deps root (some file) w ∧ ReflTransGen (Edge deps) root file ∧
    ¬ w.Seen file ∧ ∀ u, w.Seen u ↔ before.Seen u

theorem Event.IsRight.congr {e : Event} {before : CycleWalk} (h : e.IsRight deps root w)
    (hseen : ∀ u, w.Seen u ↔ before.Seen u) : e.IsRight deps root before := by
  cases e with
  | verdict v => exact h
  | visit file walk =>
    obtain ⟨hw, hreached, hnew, hsame⟩ := h
    exact ⟨hw, hreached, hnew, fun u => (hsame u).trans (hseen u)⟩

theorem any_file_eq_iff (u : Url) (stack : List Frame) :
    stack.any (·.file = u) = true ↔ u ∈ stack.map (·.file) := by
  simp

theorem isRight_next (h : Searching deps root none w) : w.next.IsRight deps root w := by
  fun_induction next w with
  | case1 finished => exact h.isRight_acyclic
  | case2 file rest finished ih =>
    refine (ih h.pop).congr fun u => ?_
    simp only [Seen, List.map_cons, List.mem_cons]
    rw [or_comm, or_assoc, or_comm (a := u ∈ finished), or_assoc]
  | case3 file dep remaining rest finished stack hstack =>
    have hadv := h.advance
    have hdep := (any_file_eq_iff dep stack).mp hstack
    obtain ⟨higher, hh⟩ := map_downTo hdep
    refine ⟨isCycle_cycleTo hdep hadv.nodup hadv.linked, dep, ?_, hadv.reached_above⟩
    simp [cycleTo, hh]
  | case4 file dep remaining rest finished stack hstack hfinished ih =>
    exact (ih (h.advance.skip (by simpa using hfinished))).congr fun u => Iff.rfl
  | case5 file dep remaining rest finished stack hstack hfinished =>
    refine ⟨h.advance, h.advance.reached_above, ?_, fun u => Iff.rfl⟩
    rintro (hs | hf)
    · exact hstack ((any_file_eq_iff dep stack).mpr hs)
    · exact hfinished (by simpa using hf)

/-- The reachable files that a walk has not come to yet. -/
def unseen (deps : Url → List Url) (root : Url) (w : CycleWalk) : Set Url :=
  {u | ReflTransGen (Edge deps) root u ∧ ¬ w.Seen u}

theorem seen_enter (w : CycleWalk) (file u : Url) (imports : Option (List Url)) :
    (w.enter file imports).Seen u ↔ u = file ∨ w.Seen u := by
  cases imports with
  | none => simp only [enter, Seen, List.mem_cons]; rw [or_left_comm]
  | some imports => simp only [enter, Seen, List.map_cons, List.mem_cons, or_assoc]

/-- Among finitely many files, entering a new one leaves fewer. -/
theorem ncard_unseen_enter (hfinite : {u | ReflTransGen (Edge deps) root u}.Finite) {file : Url}
    (hreached : ReflTransGen (Edge deps) root file) (hnew : ¬ w.Seen file)
    (imports : Option (List Url)) :
    ((w.enter file imports).unseen deps root).ncard < (w.unseen deps root).ncard := by
  refine Set.ncard_lt_ncard ?_ (hfinite.subset fun u hu => hu.1)
  refine ⟨fun u hu => ⟨hu.1, fun hs => hu.2 ((seen_enter w file u imports).mpr (.inr hs))⟩, ?_⟩
  intro hsub
  exact (hsub ⟨hreached, hnew⟩).2 ((seen_enter w file file imports).mpr (.inl rfl))

end CycleWalk
end LanguageServer
