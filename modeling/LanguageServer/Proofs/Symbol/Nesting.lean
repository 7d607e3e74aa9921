import LanguageServer.Symbol.Basic

/-! Forests of symbols in the order of the walk, and forests whose ranges are well nested: there the
innermost symbol at a position lies inside every other one there. -/
namespace LanguageServer

namespace Position

theorem le_iff {p q : Position} : p ≤ q ↔
    p.line.toNat < q.line.toNat ∨
      p.line.toNat = q.line.toNat ∧ p.character.toNat ≤ q.character.toNat := by
  change p.le q = true ↔ _
  simp [le, UInt32.lt_iff_toNat_lt, UInt32.le_iff_toNat_le, ← UInt32.toNat_inj]

theorem le_trans {p q r : Position} (hpq : p ≤ q) (hqr : q ≤ r) : p ≤ r := by
  rw [le_iff] at *
  omega

theorem le_antisymm {p q : Position} (hpq : p ≤ q) (hqp : q ≤ p) : p = q := by
  rw [le_iff] at hpq hqp
  have hline : p.line = q.line := UInt32.toNat_inj.mp (by omega)
  have hcharacter : p.character = q.character := UInt32.toNat_inj.mp (by omega)
  cases p
  cases q
  exact mk.injEq .. ▸ ⟨hline, hcharacter⟩

theorem le_total (p q : Position) : p ≤ q ∨ q ≤ p := by
  rw [le_iff, le_iff]
  omega

theorem le_refl (p : Position) : p ≤ p := (le_total p p).elim id id

end Position

namespace Range

theorem contains_iff {r : Range} {p : Position} : r.contains p ↔ r.start ≤ p ∧ p ≤ r.stop := by
  simp [contains]

/-- A range holds the positions of the ranges inside it. -/
theorem contains_of_containsRange {r inner : Range} {p : Position} (h : r.containsRange inner)
    (hp : inner.contains p) : r.contains p := by
  rw [containsRange, Bool.and_eq_true, contains_iff, contains_iff] at h
  rw [contains_iff] at *
  exact ⟨Position.le_trans h.1.1 hp.1, Position.le_trans hp.2 h.2.2⟩

end Range

namespace Symbol

/-- What holds of a forest once it holds of what its first tree encloses and of the other trees. -/
@[elab_as_elim]
theorem forest_induction {motive : List Symbol → Prop} (nil : motive [])
    (cons : ∀ s rest, motive s.children → motive rest → motive (s :: rest)) (forest : List Symbol) :
    motive forest :=
  match forest with
  | [] => nil
  | s :: rest => cons s rest (forest_induction nil cons s.children) (forest_induction nil cons rest)
termination_by sizes forest
decreasing_by
  all_goals
    simp only [sizes, size_eq]
    omega

theorem walk_nil : walk [] = [] := by simp [walk]

theorem walk_append (xs ys : List Symbol) : walk (xs ++ ys) = walk xs ++ walk ys := by
  induction xs using walk.induct with
  | case1 => simp [walk_nil]
  | case2 s rest ih =>
    rw [walk, List.cons_append, walk, ← List.append_assoc, ih, List.cons_append]

theorem walk_cons (s : Symbol) (rest : List Symbol) :
    walk (s :: rest) = s :: walk s.children ++ walk rest := by
  rw [walk, walk_append, List.cons_append]

theorem walk_singleton (s : Symbol) : walk [s] = s :: walk s.children := by
  rw [walk_cons, walk_nil, List.append_nil]

theorem mem_walk_cons {s t : Symbol} {rest : List Symbol} :
    t ∈ walk (s :: rest) ↔ t ∈ walk [s] ∨ t ∈ walk rest := by
  rw [walk_cons, walk_singleton, List.mem_append]

theorem walk_eq_preorders (forest : List Symbol) : walk forest = preorders forest := by
  induction forest using forest_induction with
  | nil => rw [walk_nil, preorders]
  | cons s rest children ih =>
    rw [walk_cons, children, ih, preorders]
    cases s <;> simp [preorder, Symbol.children, preorders]

theorem mem_walk_of_mem {forest : List Symbol} {s : Symbol} (h : s ∈ forest) : s ∈ walk forest := by
  obtain ⟨before, after, rfl⟩ := List.append_of_mem h
  simp [walk_append, walk_cons]

/-- What a symbol of the forest encloses lies inside it. -/
def Encloses (forest : List Symbol) : Prop :=
  ∀ s ∈ walk forest, ∀ c ∈ s.children, s.range.containsRange c.range

namespace Encloses

variable {s t : Symbol} {rest forest : List Symbol} {p : Position}

theorem children (h : Encloses (s :: rest)) : Encloses s.children := fun t ht =>
  h t (mem_walk_cons.mpr (.inl (walk_singleton s ▸ List.mem_cons_of_mem s ht)))

theorem tail (h : Encloses (s :: rest)) : Encloses rest := fun t ht =>
  h t (mem_walk_cons.mpr (.inr ht))

theorem of_mem (h : Encloses forest) (ht : t ∈ walk forest) : Encloses t.children := by
  induction forest using forest_induction with
  | nil => simp [walk_nil] at ht
  | cons s rest children ih =>
    rw [mem_walk_cons, walk_singleton, List.mem_cons] at ht
    rcases ht with (rfl | ht) | ht
    · exact h.children
    · exact children h.children ht
    · exact ih h.tail ht

/-- The tree of the forest that a symbol stands in holds its positions. -/
theorem exists_tree (h : Encloses forest) (ht : t ∈ walk forest) (hp : t.range.contains p) :
    ∃ s ∈ forest, t ∈ walk [s] ∧ s.range.contains p := by
  induction forest using forest_induction with
  | nil => simp [walk_nil] at ht
  | cons s rest children ih =>
    rw [mem_walk_cons, walk_singleton, List.mem_cons] at ht
    rcases ht with (rfl | ht) | ht
    · exact ⟨t, List.mem_cons_self, by simp [walk_singleton], hp⟩
    · obtain ⟨c, hc, -, hcp⟩ := children h.children ht
      have hin := h s (mem_walk_of_mem List.mem_cons_self) c hc
      exact ⟨s, List.mem_cons_self, by simp [walk_singleton, ht],
        Range.contains_of_containsRange hin hcp⟩
    · obtain ⟨r, hr, hrp⟩ := ih h.tail ht
      exact ⟨r, List.mem_cons_of_mem s hr, hrp⟩

/-- A symbol holds the positions of the symbols inside it. -/
theorem contains_head (h : Encloses (s :: rest)) (ht : t ∈ walk [s]) (hp : t.range.contains p) :
    s.range.contains p := by
  rw [walk_singleton, List.mem_cons] at ht
  rcases ht with rfl | ht
  · exact hp
  · obtain ⟨c, hc, -, hcp⟩ := h.children.exists_tree ht hp
    exact Range.contains_of_containsRange (h s (mem_walk_of_mem List.mem_cons_self) c hc) hcp

end Encloses

/-- Symbols with no position in common. -/
def Apart (s t : Symbol) : Prop := ∀ p, s.range.contains p → ¬t.range.contains p

/-- A forest whose ranges are well nested: none ends before it starts, what a symbol encloses lies
inside it, and symbols side by side share no position. -/
structure IsNested (forest : List Symbol) : Prop where
  forward : ∀ s ∈ walk forest, s.range.start ≤ s.range.stop
  inside : ∀ s ∈ walk forest, ∀ c ∈ s.children, s.range.containsRange c.range
  apart : forest.Pairwise Apart
  apartInside : ∀ s ∈ walk forest, s.children.Pairwise Apart

namespace IsNested

variable {s : Symbol} {rest forest : List Symbol}

theorem children (h : IsNested (s :: rest)) : IsNested s.children where
  forward t ht := h.forward t (mem_walk_cons.mpr (.inl (walk_singleton s ▸ List.mem_cons_of_mem s ht)))
  inside t ht := h.inside t (mem_walk_cons.mpr (.inl (walk_singleton s ▸ List.mem_cons_of_mem s ht)))
  apart := h.apartInside s (mem_walk_of_mem List.mem_cons_self)
  apartInside t ht :=
    h.apartInside t (mem_walk_cons.mpr (.inl (walk_singleton s ▸ List.mem_cons_of_mem s ht)))

theorem tail (h : IsNested (s :: rest)) : IsNested rest where
  forward t ht := h.forward t (mem_walk_cons.mpr (.inr ht))
  inside t ht := h.inside t (mem_walk_cons.mpr (.inr ht))
  apart := (List.pairwise_cons.mp h.apart).2
  apartInside t ht := h.apartInside t (mem_walk_cons.mpr (.inr ht))

/-- A tree of the forest holds the positions of the symbols in it. -/
theorem exists_contains (h : IsNested forest) {t : Symbol} {p : Position} (ht : t ∈ walk forest)
    (hp : t.range.contains p) : ∃ s ∈ forest, s.range.contains p :=
  let ⟨s, hs, _, hsp⟩ := Encloses.exists_tree h.inside ht hp
  ⟨s, hs, hsp⟩

/-- A symbol holds the positions of the symbols inside it. -/
theorem contains_head (h : IsNested (s :: rest)) {t : Symbol} {p : Position} (ht : t ∈ walk [s])
    (hp : t.range.contains p) : s.range.contains p :=
  Encloses.contains_head h.inside ht hp

end IsNested

variable {accept : Symbol → Bool} {p : Position} {best : Option Symbol} {level : List Symbol}

/-- The way down ends at what was accepted before, or at an accepted symbol that holds the
position. -/
theorem innermost_eq_some {m : Symbol} (h : innermost accept p best level = some m) :
    best = some m ∨ m ∈ walk level ∧ accept m ∧ m.range.contains p := by
  induction best, level using innermost.induct accept p with
  | case1 best => exact .inl (by simpa [innermost] using h)
  | case2 best s rest hp ih =>
    rw [innermost, if_pos hp] at h
    rw [walk_cons, List.cons_append, List.mem_cons, List.mem_append]
    obtain hbest | ⟨hm, hacc⟩ := ih h
    · split at hbest
      · obtain rfl : s = m := by simpa using hbest
        exact .inr ⟨.inl rfl, ‹_›, hp⟩
      · exact .inl hbest
    · exact .inr ⟨.inr (.inl hm), hacc⟩
  | case3 best s rest hp ih =>
    rw [innermost, if_neg hp] at h
    rw [mem_walk_cons]
    exact (ih h).imp_right fun ⟨hm, hacc⟩ => ⟨.inr hm, hacc⟩

/-- What was accepted is not forgotten on the way down. -/
theorem innermost_some (s : Symbol) : ∃ m, innermost accept p (some s) level = some m := by
  generalize hbest : some s = best
  induction best, level using innermost.induct accept p generalizing s with
  | case1 best => exact ⟨s, by rw [innermost, hbest]⟩
  | case2 best t rest hp ih =>
    rw [innermost, if_pos hp]
    by_cases hacc : accept t
    · exact ih t (by rw [dif_pos hacc])
    · exact ih s (by rw [dif_neg hacc, hbest])
  | case3 best t rest hp ih =>
    rw [innermost, if_neg hp]
    exact ih s hbest

/-- Where ranges are well nested, the way down ends inside every accepted symbol that holds the
position. -/
theorem IsNested.innermost_mem (h : IsNested level) {t : Symbol} (ht : t ∈ walk level)
    (hacc : accept t) (hp : t.range.contains p) :
    ∃ m, innermost accept p best level = some m ∧ m ∈ walk [t] := by
  induction best, level using innermost.induct accept p with
  | case1 => simp [walk_nil] at ht
  | case2 best s rest hs ih =>
    rw [innermost, if_pos hs]
    rw [walk_cons, List.cons_append, List.mem_cons, List.mem_append] at ht
    rcases ht with rfl | ht | ht
    · rw [if_pos hacc]
      obtain ⟨m, hm⟩ := innermost_some t
      refine ⟨m, hm, ?_⟩
      rw [walk_singleton, List.mem_cons]
      exact (innermost_eq_some hm).imp (fun h => (Option.some.inj h).symm) (·.1)
    · exact ih h.children ht
    · obtain ⟨r, hr, hrp⟩ := h.tail.exists_contains ht hp
      exact absurd hrp ((List.pairwise_cons.mp h.apart).1 r hr p hs)
  | case3 best s rest hs ih =>
    rw [innermost, if_neg hs]
    rw [mem_walk_cons] at ht
    rcases ht with ht | ht
    · exact absurd (h.contains_head ht hp) hs
    · exact ih h.tail ht

end Symbol
end LanguageServer
