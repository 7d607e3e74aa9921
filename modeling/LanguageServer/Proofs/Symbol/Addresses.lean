import LanguageServer.Proofs.Hierarchy.Heirs
import Mathlib.Data.List.Infix

/-! Symbols by where they stand. The walks over a forest keep what is still to be visited on a stack;
what they list is told here by the addresses of the symbols, which are ordered as in a book: before what
is inside it, and after its neighbours on the left with all that is inside them. -/
namespace LanguageServer

namespace Symbol

/-- Where a symbol stands in a forest: the number of its tree, then that of a child, and so on down. -/
abbrev Address := List Nat

/-- The symbol at an address. -/
def at? : List Symbol → Address → Option Symbol
  | _, [] => none
  | forest, [i] => forest[i]?
  | forest, i :: j :: rest => forest[i]?.bind fun s => at? s.children (j :: rest)

/-- The symbols around an address, from the outside in. -/
def around (forest : List Symbol) (place : Address) : List Symbol :=
  place.inits.dropLast.filterMap (at? forest)

/-- The nearest class or module around an address. -/
def owner? (forest : List Symbol) (place : Address) : Option Symbol :=
  ((around forest place).filter (·.isType)).getLast?

/-- The same address when there is one more tree in front. -/
def Address.shift : Address → Address
  | [] => []
  | i :: rest => (i + 1) :: rest

/-- The addresses of all symbols, each before those inside it. -/
def addresses : List Symbol → List Address
  | [] => []
  | s :: rest => [0] :: (addresses s.children).map (0 :: ·) ++ (addresses rest).map Address.shift
termination_by forest => sizes forest
decreasing_by
  all_goals
    simp only [sizes, size_eq]
    omega

variable {s t : Symbol} {rest forest : List Symbol} {place : Address} {outer : Option Symbol}

theorem at?_nil (place : Address) : at? [] place = none := by
  match place with
  | [] => rfl
  | [_] => rfl
  | _ :: _ :: _ => rfl

theorem at?_shift (s : Symbol) (rest : List Symbol) (place : Address) :
    at? (s :: rest) place.shift = at? rest place := by
  match place with
  | [] => rfl
  | [_] => rfl
  | _ :: _ :: _ => rfl

theorem at?_zero (h : place ≠ []) : at? (s :: rest) (0 :: place) = at? s.children place := by
  obtain ⟨i, below, rfl⟩ := List.exists_cons_of_ne_nil h
  rfl

theorem ne_nil_of_mem_addresses (h : place ∈ addresses forest) : place ≠ [] := by
  rintro rfl
  induction forest using forest_induction with
  | nil => simp [addresses] at h
  | cons s rest _ ih =>
    rw [addresses, List.cons_append, List.mem_cons, List.mem_append, List.mem_map, List.mem_map] at h
    obtain h | ⟨below, -, h⟩ | ⟨below, hbelow, h⟩ := h
    · cases h
    · cases h
    · cases below with
      | nil => exact ih hbelow
      | cons i below => cases h

/-- The walk visits the symbols at the addresses, one after the other. -/
theorem map_at?_addresses (forest : List Symbol) :
    (addresses forest).map (at? forest) = (walk forest).map some := by
  induction forest using forest_induction with
  | nil => simp [addresses, walk_nil]
  | cons s rest children ih =>
    have hinside : ((addresses s.children).map (0 :: ·)).map (at? (s :: rest)) =
        (addresses s.children).map (at? s.children) := by
      rw [List.map_map]
      exact List.map_congr_left fun place hplace => at?_zero (ne_nil_of_mem_addresses hplace)
    have hbeside : ((addresses rest).map Address.shift).map (at? (s :: rest)) =
        (addresses rest).map (at? rest) := by
      rw [List.map_map]
      exact List.map_congr_left fun place _ => at?_shift s rest place
    rw [addresses, List.map_append, List.map_cons, hinside, hbeside, children, ih, walk_cons,
      List.map_append, List.map_cons]
    rfl

theorem mem_addresses_iff : place ∈ addresses forest ↔ (at? forest place).isSome := by
  constructor
  · intro h
    have hmem : at? forest place ∈ (walk forest).map some :=
      map_at?_addresses forest ▸ List.mem_map_of_mem h
    obtain ⟨s, -, hs⟩ := List.mem_map.mp hmem
    rw [← hs]
    rfl
  · induction forest using forest_induction generalizing place with
    | nil => simp [at?_nil]
    | cons s rest children ih =>
      intro h
      rw [addresses, List.cons_append, List.mem_cons, List.mem_append, List.mem_map, List.mem_map]
      match place with
      | [] => cases h
      | [0] => exact .inl rfl
      | 0 :: j :: below => exact .inr (.inl ⟨j :: below, children h, rfl⟩)
      | (i + 1) :: below =>
        rw [← Address.shift, at?_shift] at h
        exact .inr (.inr ⟨i :: below, ih h, rfl⟩)

theorem shift_lt_shift {place place' : Address} (h : place < place') : place.shift < place'.shift := by
  match place, place' with
  | [], [] => exact absurd h (List.lt_irrefl [])
  | [], _ :: _ => exact List.nil_lt_cons ..
  | _ :: _, [] => cases h
  | i :: below, j :: below' =>
    refine List.cons_lt_cons_iff.mpr ((List.cons_lt_cons_iff.mp h).imp Nat.succ_lt_succ ?_)
    exact fun ⟨hij, hbelow⟩ => ⟨congrArg Nat.succ hij, hbelow⟩

/-- The addresses ascend: none comes twice, and what is inside a symbol comes between it and its
neighbour on the right. -/
theorem pairwise_addresses (forest : List Symbol) : (addresses forest).Pairwise (· < ·) := by
  induction forest using forest_induction with
  | nil => simp [addresses]
  | cons s rest children ih =>
    have hinside : ∀ place ∈ (addresses s.children).map (0 :: ·), [0] < place := by
      intro place hplace
      obtain ⟨below, hbelow, rfl⟩ := List.mem_map.mp hplace
      obtain ⟨i, below, rfl⟩ := List.exists_cons_of_ne_nil (ne_nil_of_mem_addresses hbelow)
      exact List.cons_lt_cons_iff.mpr (.inr ⟨rfl, List.nil_lt_cons i below⟩)
    have hbeside (front : Address) : ∀ place ∈ (addresses rest).map Address.shift, 0 :: front < place := by
      intro place hplace
      obtain ⟨below, hbelow, rfl⟩ := List.mem_map.mp hplace
      obtain ⟨i, below, rfl⟩ := List.exists_cons_of_ne_nil (ne_nil_of_mem_addresses hbelow)
      exact List.cons_lt_cons_iff.mpr (.inl (Nat.succ_pos i))
    rw [addresses, List.pairwise_append, List.pairwise_cons, List.pairwise_map, List.pairwise_map]
    refine ⟨⟨hinside, children.imp fun h => List.cons_lt_cons_iff.mpr (.inr ⟨rfl, h⟩)⟩,
      ih.imp shift_lt_shift, fun place hplace => ?_⟩
    obtain rfl | hplace := List.mem_cons.mp hplace
    · exact hbeside []
    · obtain ⟨below, -, rfl⟩ := List.mem_map.mp hplace
      exact hbeside below

section Owners

theorem dropLast_inits_cons (i : Nat) (below : Address) :
    (i :: below).inits.dropLast = [] :: below.inits.dropLast.map (i :: ·) := by
  have hne : below.inits.map (i :: ·) ≠ [] := by cases below <;> simp
  rw [List.inits_cons, List.dropLast_cons_of_ne_nil hne, List.map_dropLast]

theorem around_shift (s : Symbol) (rest : List Symbol) (place : Address) :
    around (s :: rest) place.shift = around rest place := by
  have hinits : place.shift.inits = place.inits.map Address.shift := by
    cases place <;> simp [Address.shift]
  rw [around, hinits, ← List.map_dropLast, List.filterMap_map, around]
  exact List.filterMap_congr fun place _ => at?_shift s rest place

/-- A tree is around what is inside it, and comes first. -/
theorem around_zero (h : place ≠ []) :
    around (s :: rest) (0 :: place) = s :: around s.children place := by
  obtain ⟨i, below, rfl⟩ := List.exists_cons_of_ne_nil h
  have hinside : (below.inits.dropLast.map (i :: ·)).filterMap (at? (s :: rest) ∘ (0 :: ·)) =
      (below.inits.dropLast.map (i :: ·)).filterMap (at? s.children) := by
    refine List.filterMap_congr fun place hplace => ?_
    obtain ⟨front, -, rfl⟩ := List.mem_map.mp hplace
    rfl
  have hroot : at? (s :: rest) [0] = some s := rfl
  rw [around, dropLast_inits_cons, dropLast_inits_cons, around, dropLast_inits_cons, List.map_cons,
    List.filterMap_cons_none rfl, List.filterMap_cons_some hroot, List.filterMap_cons_none rfl,
    List.filterMap_map, hinside]

/-- The inherit symbol at an address, with what it counts for: the nearest class or module around it,
and what is around the forest if there is none. -/
def edgeAt? (forest : List Symbol) (outer : Option Symbol) (place : Address) :
    Option (Option Symbol × String) :=
  ((at? forest place).bind inherited?).map ((owner? forest place).or outer, ·)

theorem edgeAt?_root (s : Symbol) (rest : List Symbol) (outer : Option Symbol) :
    edgeAt? (s :: rest) outer [0] = s.inherited?.map (outer, ·) := rfl

theorem edgeAt?_zero (h : place ≠ []) : edgeAt? (s :: rest) outer (0 :: place) =
    edgeAt? s.children (if s.isType then some s else outer) place := by
  have howner : (owner? (s :: rest) (0 :: place)).or outer =
      (owner? s.children place).or (if s.isType then some s else outer) := by
    rw [owner?, around_zero h, owner?, List.filter_cons]
    cases hs : s.isType with
    | true =>
      rw [if_pos rfl, if_pos rfl, List.getLast?_cons]
      cases ((around s.children place).filter (·.isType)).getLast? <;> rfl
    | false => rw [if_neg Bool.false_ne_true, if_neg Bool.false_ne_true]
  rw [edgeAt?, edgeAt?, at?_zero h, howner]

theorem edgeAt?_shift (s : Symbol) (rest : List Symbol) (outer : Option Symbol) (place : Address) :
    edgeAt? (s :: rest) outer place.shift = edgeAt? rest outer place := by
  rw [edgeAt?, edgeAt?, at?_shift, owner?, owner?, around_shift]

theorem children_of_inherited? {target : String} (h : s.inherited? = some target) :
    s.children = [] := by
  cases s with
  | scope => cases h
  | leaf => rfl

/-- One tree gives its own inherit symbol, if it is one, or those inside it. -/
theorem inheritEdges_singleton (outer : Option Symbol) (s : Symbol) :
    inheritEdges [(outer, s)] = (s.inherited?.map (outer, ·)).toList ++
      inheritEdges (s.children.map ((if s.isType then some s else outer), ·)) := by
  rw [inheritEdges]
  cases h : s.inherited? with
  | none => simp
  | some target => simp [children_of_inherited? h]

/-- The walk with owners visits the addresses in order, and gives what is inherited there. -/
theorem inheritEdges_eq (forest : List Symbol) (outer : Option Symbol) :
    inheritEdges (forest.map (outer, ·)) = (addresses forest).filterMap (edgeAt? forest outer) := by
  -- inside a class or module it is that one which is around the forest
  induction forest using forest_induction generalizing outer with
  | nil => simp [inheritEdges, addresses]
  | cons s rest children ih =>
    have hinside : ((addresses s.children).map (0 :: ·)).filterMap (edgeAt? (s :: rest) outer) =
        (addresses s.children).filterMap
          (edgeAt? s.children (if s.isType then some s else outer)) := by
      rw [List.filterMap_map]
      exact List.filterMap_congr fun place hplace => edgeAt?_zero (ne_nil_of_mem_addresses hplace)
    have hbeside : ((addresses rest).map Address.shift).filterMap (edgeAt? (s :: rest) outer) =
        (addresses rest).filterMap (edgeAt? rest outer) := by
      rw [List.filterMap_map]
      exact List.filterMap_congr fun place _ => edgeAt?_shift s rest outer place
    have hcons : (s :: rest).map (outer, ·) = [(outer, s)] ++ rest.map (outer, ·) := rfl
    rw [hcons, inheritEdges_append, inheritEdges_singleton, children, ih, addresses,
      List.filterMap_append, List.filterMap_cons, hinside, hbeside, edgeAt?_root]
    cases s.inherited? <;> rfl

end Owners

/-- What a stack gives out until it is empty. Its top is at its end: what is taken from there gives
something out, and what it pushes is put there in reverse. -/
inductive Drains {β γ : Type} (give : β → List γ) (push : β → List β) : List β → List γ → Prop
  | empty : Drains give push [] []
  | pop {stack : List β} {x : β} {out : List γ}
      (h : Drains give push (stack ++ (push x).reverse) out) :
      Drains give push (stack ++ [x]) (give x ++ out)

namespace Drains

variable {β γ : Type} {give : β → List γ} {push : β → List β}

theorem unique {stack : List β} {out out' : List γ} (h : Drains give push stack out)
    (h' : Drains give push stack out') : out = out' := by
  induction h generalizing out' with
  | empty =>
    generalize hstack : ([] : List β) = stack at h'
    cases h' with
    | empty => rfl
    | pop => simp at hstack
  | @pop stack x out _ ih =>
    generalize hstack : stack ++ [x] = full at h'
    cases h' with
    | empty => simp at hstack
    | pop h' =>
      obtain ⟨rfl, hx⟩ := List.append_inj' hstack rfl
      obtain rfl : x = _ := List.singleton_inj.mp hx
      rw [ih h']

theorem iff_eq {stack : List β} {out out' : List γ} (h : Drains give push stack out) :
    Drains give push stack out' ↔ out' = out :=
  ⟨fun h' => h'.unique h, fun heq => heq ▸ h⟩

end Drains

/-- The walk lists what its stack gives out. -/
theorem drains_walk (stack : List Symbol) : Drains (fun s => [s]) children stack.reverse (walk stack) := by
  induction stack using walk.induct with
  | case1 =>
    rw [walk_nil]
    exact .empty
  | case2 s rest ih =>
    rw [walk, List.reverse_cons, ← List.singleton_append]
    refine .pop ?_
    rwa [← List.reverse_append]

/-- What a symbol on the stack gives out, with what it stands in: itself, if it inherits something. -/
def given : Option Symbol × Symbol → List (Option Symbol × String)
  | (owner, s) => (s.inherited?.map (owner, ·)).toList

/-- What is put on the stack for a symbol. -/
def pushed : Option Symbol × Symbol → List (Option Symbol × Symbol)
  | (owner, s) => match s.inherited? with
    | some _ => []
    | none => s.children.map ((if s.isType then some s else owner), ·)

theorem drains_inheritEdges (stack : List (Option Symbol × Symbol)) :
    Drains given pushed stack.reverse (inheritEdges stack) := by
  induction stack using inheritEdges.induct with
  | case1 =>
    rw [inheritEdges]
    exact .empty
  | case2 owner s rest target htarget ih =>
    have hedges : inheritEdges ((owner, s) :: rest) = given (owner, s) ++ inheritEdges rest := by
      simp [inheritEdges, given, htarget]
    have hpushed : pushed (owner, s) = [] := by simp [pushed, htarget]
    rw [hedges, List.reverse_cons]
    refine .pop ?_
    rwa [hpushed, List.reverse_nil, List.append_nil]
  | case3 owner s rest hnone next ih =>
    have hedges : inheritEdges ((owner, s) :: rest) =
        given (owner, s) ++ inheritEdges (pushed (owner, s) ++ rest) := by
      simp [inheritEdges, given, pushed, hnone]
    rw [hedges, List.reverse_cons]
    refine .pop ?_
    rw [← List.reverse_append]
    simpa only [pushed, hnone, next, dite_eq_ite] using ih

end Symbol

namespace Analysis
open LanguageServer.Symbol

variable {a : Analysis} {name : String} {s : Symbol}

/-- At an address stands a symbol that defines a name rather than only declaring it. -/
def DefinesAt (a : Analysis) (name : String) (place : Address) (s : Symbol) : Prop :=
  at? a.symbols place = some s ∧ s.name = name ∧ s.isDeclarationOnly = false

/-- What the walks over the symbols of an analysis list, told by the addresses of the symbols. -/
structure ListsInOrder (a : Analysis) (places : List Address) : Prop where
  ascending : places.Pairwise (· < ·)
  complete : ∀ place, place ∈ places ↔ (at? a.symbols place).isSome
  walk : a.walk.map some = places.map (at? a.symbols)
  preorder : a.walk = preorders a.symbols
  first : ∀ name s, a.definition? name = some s ↔ ∃ place, a.DefinesAt name place s ∧
    ∀ earlier < place, ∀ t, ¬ a.DefinesAt name earlier t
  defines : ∀ name, a.defines name ↔ ∃ place s, a.DefinesAt name place s
  edges : a.edges = places.filterMap fun place =>
    ((at? a.symbols place).bind inherited?).map (owner? a.symbols place, ·)
  /-- The stacks give out just what is listed. -/
  drainsWalk : ∀ out, Drains (fun s => [s]) children a.symbols.reverse out ↔ out = a.walk
  drainsEdges : ∀ out, Drains given pushed (a.symbols.reverse.map (none, ·)) out ↔ out = a.edges

theorem walk_eq_filterMap (a : Analysis) :
    a.walk = (addresses a.symbols).filterMap (at? a.symbols) := by
  have hwalk := congrArg (List.filterMap id) (map_at?_addresses a.symbols)
  simp only [List.filterMap_map, Function.id_comp, List.filterMap_some] at hwalk
  exact hwalk.symm

/-- What is found first among ascending addresses stands before all else that could be found. -/
theorem find?_filterMap_iff {places : List Address} {sym : Address → Option Symbol} {p : Symbol → Bool}
    (h : places.Pairwise (· < ·)) : (places.filterMap sym).find? p = some s ↔
      ∃ place ∈ places, (sym place = some s ∧ p s) ∧
        ∀ earlier ∈ places, earlier < place → ∀ t, sym earlier = some t → ¬ p t := by
  induction places with
  | nil => simp
  | cons front places ih =>
    obtain ⟨hfront, hplaces⟩ := List.pairwise_cons.mp h
    -- what is not looked for in front is left out on both sides
    have hlater (hno : ∀ t, sym front = some t → ¬ p t) :
        ((places.filterMap sym).find? p = some s ↔ ∃ place ∈ front :: places,
          (sym place = some s ∧ p s) ∧
            ∀ earlier ∈ front :: places, earlier < place → ∀ t, sym earlier = some t → ¬ p t) := by
      rw [ih hplaces]
      constructor
      · rintro ⟨place, hplace, hs, hfirst⟩
        refine ⟨place, List.mem_cons_of_mem front hplace, hs, fun earlier hearlier hlt => ?_⟩
        obtain rfl | hearlier := List.mem_cons.mp hearlier
        · exact hno
        · exact hfirst earlier hearlier hlt
      · rintro ⟨place, hplace, hs, hfirst⟩
        obtain rfl | hplace := List.mem_cons.mp hplace
        · exact absurd hs.2 (hno s hs.1)
        · exact ⟨place, hplace, hs, fun earlier hearlier =>
            hfirst earlier (List.mem_cons_of_mem front hearlier)⟩
    cases hsym : sym front with
    | none =>
      rw [List.filterMap_cons_none hsym]
      exact hlater fun t ht => by rw [hsym] at ht; cases ht
    | some t =>
      rw [List.filterMap_cons_some hsym, List.find?_cons]
      cases hp : p t with
      | false =>
        refine hlater fun t' ht' => ?_
        obtain rfl := Option.some.inj (hsym.symm.trans ht')
        exact Bool.eq_false_iff.mp hp
      | true =>
        constructor
        · rintro ⟨⟩
          refine ⟨front, List.mem_cons_self, ⟨hsym, hp⟩, fun earlier hearlier hlt => ?_⟩
          obtain rfl | hearlier := List.mem_cons.mp hearlier
          · exact absurd hlt (List.lt_irrefl _)
          · exact absurd hlt (List.lt_asymm (hfront earlier hearlier))
        · rintro ⟨place, hplace, ⟨hs, -⟩, hfirst⟩
          obtain rfl | hplace := List.mem_cons.mp hplace
          · exact hsym.symm.trans hs
          · exact absurd hp (hfirst front List.mem_cons_self (hfront place hplace) t hsym)

theorem definition?_iff_first : a.definition? name = some s ↔ ∃ place, a.DefinesAt name place s ∧
    ∀ earlier < place, ∀ t, ¬ a.DefinesAt name earlier t := by
  have hat {place : Address} {t : Symbol} (ht : at? a.symbols place = some t) :
      place ∈ addresses a.symbols := mem_addresses_iff.mpr (by rw [ht]; rfl)
  rw [definition?, walk_eq_filterMap, find?_filterMap_iff (pairwise_addresses a.symbols)]
  simp only [Bool.and_eq_true, decide_eq_true_eq, Bool.not_eq_true']
  constructor
  · rintro ⟨place, -, hs, hfirst⟩
    exact ⟨place, hs, fun earlier hlt t ht => hfirst earlier (hat ht.1) hlt t ht.1 ht.2⟩
  · rintro ⟨place, hs, hfirst⟩
    exact ⟨place, hat hs.1, hs, fun earlier _ hlt t ht hdef => hfirst earlier hlt t ⟨ht, hdef⟩⟩

theorem defines_iff_exists : a.defines name ↔ ∃ place s, a.DefinesAt name place s := by
  rw [defines, definition?, walk_eq_filterMap, List.find?_isSome]
  simp only [List.mem_filterMap, Bool.and_eq_true, decide_eq_true_eq, Bool.not_eq_true']
  constructor
  · rintro ⟨s, ⟨place, -, hs⟩, hdef⟩
    exact ⟨place, s, hs, hdef⟩
  · rintro ⟨place, s, hs, hdef⟩
    exact ⟨s, ⟨place, mem_addresses_iff.mpr (by rw [hs]; rfl), hs⟩, hdef⟩

/-- The walks list a forest in the order of its addresses. -/
theorem listsInOrder (a : Analysis) : a.ListsInOrder (addresses a.symbols) where
  ascending := pairwise_addresses a.symbols
  complete _ := mem_addresses_iff
  walk := (map_at?_addresses a.symbols).symm
  preorder := walk_eq_preorders a.symbols
  first _ _ := definition?_iff_first
  defines _ := defines_iff_exists
  edges := by
    rw [edges, inheritEdges_eq]
    exact List.filterMap_congr fun place _ => by rw [edgeAt?, Option.or_none]
  drainsWalk _ := (drains_walk a.symbols).iff_eq
  drainsEdges _ := by
    rw [List.map_reverse]
    exact (drains_inheritEdges (a.symbols.map (none, ·))).iff_eq

end Analysis
end LanguageServer
