import LanguageServer.Analysis.Basic
import LanguageServer.Proofs.Symbol.Nesting

/-! The way down to a position in forests whose neighbours may meet: where one symbol ends another
may start, and both hold the position between them. The way down enters the first of the two and
never turns back, so what it misses lies in a neighbour that it passed over, and nowhere else. -/
namespace LanguageServer
namespace Symbol

/-- One of two symbols ends at a position where the other starts. -/
def MeetAt (p : Position) (s t : Symbol) : Prop :=
  s.range.stop = p ∧ t.range.start = p ∨ t.range.stop = p ∧ s.range.start = p

/-- Symbols that share no position but one at which they meet. -/
def Beside (s t : Symbol) : Prop := ∀ p, s.range.contains p → t.range.contains p → MeetAt p s t

/-- A symbol that ends no later than another one starts stands beside it. -/
theorem beside_of_le {s t : Symbol} (h : s.range.stop ≤ t.range.start) : Beside s t := by
  intro p hs ht
  rw [Range.contains_iff] at hs ht
  have hstop : s.range.stop = p := Position.le_antisymm (Position.le_trans h ht.1) hs.2
  have hstart : t.range.start = p := Position.le_antisymm ht.1 (Position.le_trans hs.2 h)
  exact .inl ⟨hstop, hstart⟩

/-- A forest where what a symbol encloses lies inside it, and of symbols side by side one may at most
end where another starts. -/
structure IsLaid (forest : List Symbol) : Prop where
  inside : Encloses forest
  beside : forest.Pairwise Beside
  besideInside : ∀ s ∈ walk forest, s.children.Pairwise Beside

/-- A symbol that is accepted and holds the position. -/
def Fits (accept : Symbol → Bool) (p : Position) (s : Symbol) : Prop := s.range.contains p ∧ accept s

/-- What a search for the innermost fitting symbol should find: one with no other inside it, and
nothing only where no symbol fits. -/
def IsInnermost (accept : Symbol → Bool) (p : Position) (forest : List Symbol) :
    Option Symbol → Prop
  | some m => m ∈ walk forest ∧ Fits accept p m ∧ ∀ t ∈ walk m.children, ¬Fits accept p t
  | none => ∀ t ∈ walk forest, ¬Fits accept p t

/-- The symbols entered on the way down to a position, from the outside in: of every level the first
that holds it. -/
def way (p : Position) : List Symbol → List Symbol
  | [] => []
  | s :: rest => if s.range.contains p then s :: way p s.children else way p rest
termination_by level => sizes level
decreasing_by
  all_goals
    simp only [sizes, size_eq]
    omega

/-- On the way down to a position the first symbol is entered, and the second, which stands behind it
and holds the position too, is passed over. -/
inductive Passed (p : Position) : List Symbol → Symbol → Symbol → Prop
  | here {a b : Symbol} {rest : List Symbol} (ha : a.range.contains p) (hmem : b ∈ rest)
      (hb : b.range.contains p) : Passed p (a :: rest) a b
  | beyond {s a b : Symbol} {rest : List Symbol} (hs : ¬s.range.contains p)
      (h : Passed p rest a b) : Passed p (s :: rest) a b
  | inside {s a b : Symbol} {rest : List Symbol} (hs : s.range.contains p)
      (h : Passed p s.children a b) : Passed p (s :: rest) a b

namespace IsLaid

variable {s : Symbol} {rest : List Symbol}

theorem children (h : IsLaid (s :: rest)) : IsLaid s.children where
  inside := h.inside.children
  beside := h.besideInside s (mem_walk_of_mem List.mem_cons_self)
  besideInside t ht :=
    h.besideInside t (mem_walk_cons.mpr (.inl (walk_singleton s ▸ List.mem_cons_of_mem s ht)))

theorem tail (h : IsLaid (s :: rest)) : IsLaid rest where
  inside := h.inside.tail
  beside := (List.pairwise_cons.mp h.beside).2
  besideInside t ht := h.besideInside t (mem_walk_cons.mpr (.inr ht))

end IsLaid

variable {accept : Symbol → Bool} {p : Position} {best : Option Symbol} {s t m a b : Symbol}
  {rest level forest : List Symbol}

theorem way_nil : way p [] = [] := by simp [way]

theorem way_cons_of_contains (hs : s.range.contains p) :
    way p (s :: rest) = s :: way p s.children := by
  rw [way, if_pos hs]

theorem way_cons_of_not (hs : ¬s.range.contains p) : way p (s :: rest) = way p rest := by
  rw [way, if_neg hs]

/-- The way down answers with the last accepted symbol that it enters. -/
theorem innermost_eq_getLast? :
    innermost accept p best level = ((way p level).filter accept).getLast?.or best := by
  induction best, level using innermost.induct accept p with
  | case1 best => simp [innermost, way_nil]
  | case2 best s rest hs ih =>
    rw [innermost, if_pos hs, way_cons_of_contains hs]
    rw [dite_eq_ite] at ih
    rw [ih]
    by_cases hacc : accept s <;> simp [hacc, List.getLast?_cons]
  | case3 best s rest hs ih => rw [innermost, if_neg hs, way_cons_of_not hs, ih]

/-- What the way down answers with is a symbol of the forest that fits. -/
theorem fits_of_innermost (h : innermost accept p none level = some m) :
    m ∈ walk level ∧ Fits accept p m := by
  obtain hbest | ⟨hm, hacc, hp⟩ := innermost_eq_some h
  · cases hbest
  · exact ⟨hm, hp, hacc⟩

/-- What was accepted before counts where the way down answers with nothing of its own. -/
theorem innermost_eq_or :
    innermost accept p best level = (innermost accept p none level).or best := by
  simp [innermost_eq_getLast?]

/-- There is no answer exactly where nothing on the way is accepted. -/
theorem innermost_eq_none_iff :
    innermost accept p none level = none ↔ ∀ s ∈ way p level, ¬accept s := by
  simp [innermost_eq_getLast?]

namespace Passed

/-- The way on from the symbol that was entered is part of the whole way. -/
theorem way_subset (h : Passed p level a b) : way p [a] ⊆ way p level := by
  induction h with
  | here ha _ _ => simp [way_cons_of_contains ha]
  | beyond hs _ ih => rwa [way_cons_of_not hs]
  | inside hs _ ih =>
    rw [way_cons_of_contains hs]
    exact List.subset_cons_of_subset _ ih

theorem cons_of_not_iff (hs : ¬s.range.contains p) : Passed p (s :: rest) a b ↔ Passed p rest a b :=
  ⟨fun
    | .here ha _ _ => absurd ha hs
    | .beyond _ h => h
    | .inside hs' _ => absurd hs' hs, .beyond hs⟩

theorem cons_of_contains_iff (hs : s.range.contains p) :
    Passed p (s :: rest) a b ↔
      a = s ∧ b ∈ rest ∧ b.range.contains p ∨ Passed p s.children a b :=
  ⟨fun
    | .here _ hmem hb => .inl ⟨rfl, hmem, hb⟩
    | .beyond hs' _ => absurd hs hs'
    | .inside _ h => .inr h, fun
    | .inl ⟨rfl, hmem, hb⟩ => .here hs hmem hb
    | .inr h => .inside hs h⟩

/-- What stands in the symbol that was passed over stands in the forest. -/
theorem walk_subset (h : Passed p level a b) : walk [b] ⊆ walk level := by
  intro t ht
  induction h with
  | here _ hmem _ =>
    obtain ⟨before, after, rfl⟩ := List.append_of_mem hmem
    rw [mem_walk_cons, walk_append, List.mem_append]
    exact .inr (.inr (mem_walk_cons.mpr (.inl ht)))
  | beyond _ _ ih => exact mem_walk_cons.mpr (.inr (ih ht))
  | inside _ _ ih =>
    rw [walk_cons, List.cons_append]
    exact List.mem_cons_of_mem _ (List.mem_append_left _ (ih ht))

/-- What is passed over in a laid forest meets what is entered. -/
theorem meetAt (h : Passed p level a b) (hlaid : IsLaid level) : MeetAt p a b := by
  induction h with
  | here ha hmem hb => exact (List.pairwise_cons.mp hlaid.beside).1 _ hmem p ha hb
  | beyond _ _ ih => exact ih hlaid.tail
  | inside _ _ ih => exact ih hlaid.children

end Passed

/-- A symbol that holds the position is entered, or stands in one that is passed over. -/
theorem mem_way_or_passed (h : Encloses level) (ht : t ∈ walk level) (hp : t.range.contains p) :
    t ∈ way p level ∨ ∃ a b, Passed p level a b ∧ t ∈ walk [b] := by
  induction level using way.induct p with
  | case1 => simp [walk_nil] at ht
  | case2 s rest hs ih =>
    rw [walk_cons, List.cons_append, List.mem_cons, List.mem_append] at ht
    rw [way_cons_of_contains hs]
    rcases ht with rfl | ht | ht
    · exact .inl List.mem_cons_self
    · obtain hway | ⟨a, b, hab, htb⟩ := ih h.children ht
      · exact .inl (List.mem_cons_of_mem s hway)
      · exact .inr ⟨a, b, .inside hs hab, htb⟩
    · obtain ⟨r, hr, htr, hrp⟩ := h.tail.exists_tree ht hp
      exact .inr ⟨s, r, .here hs hr hrp, htr⟩
  | case3 s rest hs ih =>
    rw [mem_walk_cons] at ht
    rw [way_cons_of_not hs]
    obtain ht | ht := ht
    · exact absurd (h.contains_head ht hp) hs
    · obtain hway | ⟨a, b, hab, htb⟩ := ih h.tail ht
      · exact .inl hway
      · exact .inr ⟨a, b, .beyond hs hab, htb⟩

/-- Where nothing on the way is accepted, what fits stands in what was passed over. -/
theorem not_fits_iff_of_way (h : Encloses level) (hway : ∀ s ∈ way p level, ¬accept s) :
    (∀ t ∈ walk level, ¬Fits accept p t) ↔
      ∀ a b, Passed p level a b → ∀ t ∈ walk [b], ¬Fits accept p t := by
  constructor
  · intro hnone a b hab t ht
    exact hnone t (hab.walk_subset ht)
  · intro hpassed t ht hfits
    obtain hmem | ⟨a, b, hab, htb⟩ := mem_way_or_passed h ht hfits.1
    · exact hway t hmem hfits.2
    · exact hpassed a b hab t htb hfits

/-- The answer is on the way; below it nothing on the way is accepted, and what is passed over there
is what is passed over for a symbol with nothing accepted on the way into it. -/
theorem passed_below_iff (h : innermost accept p none level = some m) :
    m ∈ way p level ∧ (∀ s ∈ way p m.children, ¬accept s) ∧
      ∀ a b, Passed p m.children a b ↔ Passed p level a b ∧ ∀ s ∈ way p [a], ¬accept s := by
  induction level using way.induct p with
  | case1 => simp [innermost] at h
  | case2 s rest hs ih =>
    have hway : way p [s] = s :: way p s.children := way_cons_of_contains hs
    rw [innermost, if_pos hs, innermost_eq_or] at h
    simp only [way_cons_of_contains hs, List.mem_cons, Passed.cons_of_contains_iff hs]
    cases hchildren : innermost accept p none s.children with
    | some m' =>
      obtain rfl : m' = m := by simpa [hchildren] using h
      obtain ⟨hm, hbelow, hpassed⟩ := ih hchildren
      refine ⟨.inr hm, hbelow, fun a b => (hpassed a b).trans ?_⟩
      refine and_congr_left fun hnone => (or_iff_right ?_).symm
      rintro ⟨rfl, -⟩
      obtain ⟨-, -, hacc⟩ := fits_of_innermost hchildren
      exact hnone m' (by simp [hway, hm]) hacc
    | none =>
      rw [hchildren, Option.none_or] at h
      obtain ⟨hacc, rfl⟩ : accept s ∧ s = m := by simpa using h
      have hbelow := innermost_eq_none_iff.mp hchildren
      refine ⟨.inl rfl, hbelow, fun a b => ⟨fun hab => ?_, ?_⟩⟩
      · exact ⟨.inr hab, fun t ht => hbelow t (hab.way_subset ht)⟩
      · rintro ⟨⟨rfl, -⟩ | hab, hnone⟩
        · exact absurd hacc (hnone a (by simp [hway]))
        · exact hab
  | case3 s rest hs ih =>
    rw [innermost, if_neg hs] at h
    simp only [way_cons_of_not hs, Passed.cons_of_not_iff hs]
    exact ih h

/-- The way down finds an innermost fitting symbol exactly where nothing fits in what it passes over
for symbols with nothing accepted on the way into them. -/
theorem isInnermost_innermost_iff (h : Encloses forest) :
    IsInnermost accept p forest (innermost accept p none forest) ↔
      ∀ a b, Passed p forest a b → (∀ s ∈ way p [a], ¬accept s) →
        ∀ t ∈ walk [b], ¬Fits accept p t := by
  cases hfound : innermost accept p none forest with
  | none =>
    have hway := innermost_eq_none_iff.mp hfound
    refine (not_fits_iff_of_way h hway).trans (forall₃_congr fun a b hab => ?_)
    exact ⟨fun hnone _ => hnone, fun hnone => hnone fun s hs => hway s (hab.way_subset hs)⟩
  | some m =>
    obtain ⟨hmem, hp, hacc⟩ := fits_of_innermost hfound
    obtain ⟨-, hbelow, hpassed⟩ := passed_below_iff hfound
    have hin : Encloses m.children := h.of_mem hmem
    calc
      _ ↔ ∀ t ∈ walk m.children, ¬Fits accept p t := by
        simp [IsInnermost, Fits, hmem, hacc, hp]
      _ ↔ ∀ a b, Passed p m.children a b → ∀ t ∈ walk [b], ¬Fits accept p t :=
        not_fits_iff_of_way hin hbelow
      _ ↔ _ := by simp only [hpassed, and_imp]

end Symbol

open LanguageServer.Symbol in
/-- In a laid forest an answer holds the position and is accepted. It is innermost, and there is none
only where nothing fits, if nothing fits in what is passed over for symbols with nothing accepted on
the way into them, and only then. What is passed over meets what is entered at the position. -/
theorem Analysis.innermost?_of_isLaid (a : Analysis) (h : IsLaid a.symbols) (p : Position)
    (accept : Symbol → Bool) :
    (∀ m, a.innermost? p accept = some m → m ∈ a.walk ∧ Fits accept p m) ∧
      (IsInnermost accept p a.symbols (a.innermost? p accept) ↔
        ∀ entered b, Passed p a.symbols entered b → (∀ s ∈ way p [entered], ¬accept s) →
          ∀ t ∈ Symbol.walk [b], ¬Fits accept p t) ∧
      ∀ entered b, Passed p a.symbols entered b → MeetAt p entered b := by
  exact ⟨fun _ => fits_of_innermost, isInnermost_innermost_iff h.inside, fun _ _ heb => heb.meetAt h⟩

open LanguageServer.Symbol in
/-- A variable ends where a function starts: asked for what can be called at that position, the way
down enters the variable and does not find the function. -/
theorem Analysis.innermost?_of_isLaid_missed :
    let v := Symbol.leaf ⟨"v", ⟨⟨0, 0⟩, ⟨0, 5⟩⟩, ⟨⟨0, 0⟩, ⟨0, 1⟩⟩⟩ (.variable none)
    let f := Symbol.scope ⟨"f", ⟨⟨0, 5⟩, ⟨0, 10⟩⟩, ⟨⟨0, 5⟩, ⟨0, 6⟩⟩⟩ (.function none false) []
    let a : Analysis := ⟨[v, f], [], []⟩
    IsLaid a.symbols ∧ a.innermost? ⟨0, 5⟩ Symbol.isCallable = none ∧
      ¬IsInnermost Symbol.isCallable ⟨0, 5⟩ a.symbols (a.innermost? ⟨0, 5⟩ Symbol.isCallable) := by
  intro v f a
  have hwalk : Symbol.walk a.symbols = [v, f] := by simp [a, v, f, Symbol.walk, Symbol.children]
  have hlaid : IsLaid a.symbols :=
    { inside := by simp [Encloses, hwalk, v, f, Symbol.children]
      beside := by simpa [a] using beside_of_le (s := v) (t := f) (by decide)
      besideInside := by simp [hwalk, v, f, Symbol.children] }
  have hway (rest : List Symbol) : way ⟨0, 5⟩ (v :: rest) = [v] := by
    rw [way_cons_of_contains (by decide)]
    simp [v, Symbol.children, way_nil]
  have hpassed : Passed ⟨0, 5⟩ a.symbols v f := .here (by decide) (by simp) (by decide)
  have hmissed : ¬IsInnermost Symbol.isCallable ⟨0, 5⟩ a.symbols
      (a.innermost? ⟨0, 5⟩ Symbol.isCallable) := fun hfound =>
    (Analysis.innermost?_of_isLaid a hlaid ⟨0, 5⟩ Symbol.isCallable).2.1.mp hfound v f hpassed
      (by simp [hway, v, Symbol.isCallable]) f (mem_walk_of_mem (by simp)) ⟨by decide, by decide⟩
  have hnone : a.innermost? ⟨0, 5⟩ Symbol.isCallable = none := by
    rw [Analysis.innermost?, innermost_eq_none_iff, hway]
    simp [v, Symbol.isCallable]
  exact ⟨hlaid, hnone, hmissed⟩

end LanguageServer
