import LanguageServer.Proofs.Flight.Sharing
import Mathlib.Tactic.ByContra

/-! The history of a table of flights. A flight begins where its key has none, and lands once; the
keys of the table are those of the flights that have begun and not landed. -/
namespace LanguageServer.FlightTable

variable {κ ν : Type} [BEq κ]

/-- What becomes of a table: nothing, a flight begins, or one lands. -/
inductive Turn (t : FlightTable κ ν) : FlightTable κ ν → Prop
  | rest : Turn t t
  | begin (key : κ) : t.running.find? key = none → Turn t (t.begun key)
  | land (key : κ) (id : FlightId) (o : Except Failure ν) : t.running.find? key = some id →
    Turn t (t.land key id o)

/-- The tables that there have been, newest first. -/
inductive Chronicle : List (FlightTable κ ν) → Prop
  | start : Chronicle [.empty]
  | turn {t t' : FlightTable κ ν} {h : List (FlightTable κ ν)} :
    Chronicle (t :: h) → Turn t t' → Chronicle (t' :: t :: h)

/-- A flight begins between two tables. -/
structure Begins (t t' : FlightTable κ ν) (key : κ) (id : FlightId) : Prop where
  vacant : t.running.find? key = none
  id : t.next = id
  table : t' = t.begun key

def Begun (h : List (FlightTable κ ν)) (key : κ) (id : FlightId) : Prop :=
  ∃ newer t' t older, h = newer ++ t' :: t :: older ∧ Begins t t' key id

/-- Every flight has one key and one number, and one that runs has no outcome yet. -/
structure IsOrderly (t : FlightTable κ ν) : Prop where
  distinct : t.running.keys.Nodup
  single : ∀ p ∈ t.running.pairs, ∀ q ∈ t.running.pairs, p.2 = q.2 → p = q
  waiting : ∀ p ∈ t.running.pairs, p.2 < t.next ∧ t.outcome? p.2 = none
  ended : ∀ id o, t.outcome? id = some o → id < t.next

variable [LawfulBEq κ] {t t' : FlightTable κ ν} {h : List (FlightTable κ ν)} {key : κ} {id : FlightId}
  {o : Except Failure ν}

omit [BEq κ] [LawfulBEq κ] in
theorem outcome?_land [BEq κ] (t : FlightTable κ ν) (key : κ) (id : FlightId) (o : Except Failure ν)
    (i : FlightId) : (t.land key id o).outcome? i = if id == i then some o else t.outcome? i := by
  rw [outcome?, land, Table.find?_insert, outcome?]

omit [LawfulBEq κ] in
theorem mem_land {p : κ × FlightId} : p ∈ (t.land key id o).running.pairs ↔
    p ∈ t.running.pairs ∧ (p.1 == key && p.2 == id) = false := by
  simp only [land, Table.filter, List.mem_filter, Bool.not_eq_true']

omit [LawfulBEq κ] in
theorem begun_pairs (h : t.running.find? key = none) :
    (t.begun key).running.pairs = t.running.pairs ++ [(key, t.next)] := Table.pairs_insert h t.next

omit [LawfulBEq κ] in
theorem begun_cons {x : FlightTable κ ν} :
    Begun (x :: t :: h) key id ↔ Begins t x key id ∨ Begun (t :: h) key id := by
  constructor
  · rintro ⟨newer, t', s, older, hh, hbegins⟩
    cases newer with
    | nil =>
      cases hh
      exact .inl hbegins
    | cons y newer => exact .inr ⟨newer, t', s, older, (List.cons.inj hh).2, hbegins⟩
  · rintro (hbegins | ⟨newer, t', s, older, hh, hbegins⟩)
    · exact ⟨[], x, t, h, rfl, hbegins⟩
    · exact ⟨x :: newer, t', s, older, by rw [hh]; rfl, hbegins⟩

omit [LawfulBEq κ] in
theorem Begins.next (hb : Begins t t' key id) : t'.next = t.next + 1 := hb.table ▸ rfl

omit [LawfulBEq κ] in
theorem Begins.key_eq {k : κ} (hb : Begins t (t.begun k) key id)
    (hk : t.running.find? k = none) : key = k := by
  have hpairs := congrArg (·.running.pairs) hb.table
  simp only [begun_pairs hk, begun_pairs hb.vacant, List.append_cancel_left_eq, List.cons.injEq,
    Prod.mk.injEq] at hpairs
  exact hpairs.1.1.symm

namespace IsOrderly

omit [BEq κ] [LawfulBEq κ] in
theorem empty : (FlightTable.empty : FlightTable κ ν).IsOrderly where
  distinct := List.nodup_nil
  single _ hp := absurd hp List.not_mem_nil
  waiting _ hp := absurd hp List.not_mem_nil
  ended _ _ ho := by simp [FlightTable.empty, outcome?] at ho

omit [BEq κ] [LawfulBEq κ] in
theorem outcome?_next (ht : t.IsOrderly) : t.outcome? t.next = none := by
  cases ho : t.outcome? t.next with
  | none => rfl
  | some o => exact absurd (ht.ended _ o ho) (Nat.lt_irrefl _)

theorem begun (ht : t.IsOrderly) (hkey : t.running.find? key = none) : (t.begun key).IsOrderly where
  distinct := by
    rw [Table.keys, begun_pairs hkey, List.map_append]
    refine List.nodup_append.mpr ⟨ht.distinct, by simp, fun k hk j hj => ?_⟩
    obtain ⟨p, hp, rfl⟩ := List.mem_map.mp hk
    rintro rfl
    have hne := Table.find?_eq_none_iff.mp hkey p hp
    simp [List.mem_singleton.mp hj] at hne
  single p hp q hq hpq := by
    rw [begun_pairs hkey, List.mem_append, List.mem_singleton] at hp hq
    obtain hp | rfl := hp <;> obtain hq | rfl := hq
    · exact ht.single p hp q hq hpq
    · exact absurd (ht.waiting p hp).1 (hpq ▸ Nat.lt_irrefl _)
    · exact absurd (ht.waiting q hq).1 (hpq ▸ Nat.lt_irrefl _)
    · rfl
  waiting p hp := by
    rw [begun_pairs hkey, List.mem_append, List.mem_singleton] at hp
    obtain hp | rfl := hp
    · exact ⟨Nat.lt_succ_of_lt (ht.waiting p hp).1, (ht.waiting p hp).2⟩
    · exact ⟨Nat.lt_succ_self _, ht.outcome?_next⟩
  ended i o ho := Nat.lt_succ_of_lt (ht.ended i o ho)

/-- A flight that is still there after a landing is another one. -/
theorem ne_of_mem_land (ht : t.IsOrderly) (hkey : t.running.find? key = some id)
    {p : κ × FlightId} (hp : p ∈ (t.land key id o).running.pairs) : (id == p.2) = false := by
  obtain ⟨hp, hne⟩ := mem_land.mp hp
  refine Bool.eq_false_iff.mpr fun hid => ?_
  have hpair : p = (key, id) := ht.single p hp _ (Table.mem_of_find? hkey) (eq_of_beq hid).symm
  simp [hpair] at hne

theorem land (ht : t.IsOrderly) (hkey : t.running.find? key = some id) (o : Except Failure ν) :
    (t.land key id o).IsOrderly where
  distinct := ht.distinct.sublist (List.filter_sublist.map _)
  single p hp q hq := ht.single p (mem_land.mp hp).1 q (mem_land.mp hq).1
  waiting p hp := by
    obtain ⟨hlt, hnone⟩ := ht.waiting p (mem_land.mp hp).1
    refine ⟨hlt, ?_⟩
    rw [outcome?_land, ht.ne_of_mem_land hkey hp]
    exact hnone
  ended i r hr := by
    rw [outcome?_land] at hr
    split at hr
    · next hid => exact eq_of_beq hid ▸ (ht.waiting _ (Table.mem_of_find? hkey)).1
    · exact ht.ended i r hr

theorem turn (ht : t.IsOrderly) (hturn : Turn t t') : t'.IsOrderly := by
  cases hturn with
  | rest => exact ht
  | begin key hkey => exact ht.begun hkey
  | land key id o hkey => exact ht.land hkey o

/-- An outcome is there for good. -/
theorem outcome?_turn (ht : t.IsOrderly) (hturn : Turn t t') (ho : t.outcome? id = some o) :
    t'.outcome? id = some o := by
  cases hturn with
  | rest => exact ho
  | begin key hkey => exact ho
  | land key i r hkey =>
    rw [outcome?_land, if_neg, ho]
    intro hid
    obtain rfl : i = id := eq_of_beq hid
    cases (ht.waiting _ (Table.mem_of_find? hkey)).2.symm.trans ho

end IsOrderly

namespace Chronicle

theorem isOrderly (hc : Chronicle (t :: h)) : t.IsOrderly := by
  generalize hg : t :: h = g at hc
  induction hc generalizing t h with
  | start => cases hg; exact .empty
  | turn _ hturn ih => cases hg; exact (ih rfl).turn hturn

omit [LawfulBEq κ] in
theorem tail {x : FlightTable κ ν} (hc : Chronicle (x :: t :: h)) : Chronicle (t :: h) ∧ Turn t x := by
  cases hc with
  | turn hc hturn => exact ⟨hc, hturn⟩

theorem outcome?_of_mem (hc : Chronicle (t :: h)) (ht' : t' ∈ t :: h)
    (ho : t'.outcome? id = some o) : t.outcome? id = some o := by
  induction h generalizing t with
  | nil => exact List.mem_singleton.mp ht' ▸ ho
  | cons x h ih =>
    obtain rfl | ht' := List.mem_cons.mp ht'
    · exact ho
    · obtain ⟨hc, hturn⟩ := hc.tail
      exact hc.isOrderly.outcome?_turn hturn (ih hc ht')

/-- The keys in the table are those of the flights that have begun and not landed. -/
theorem running_iff (hc : Chronicle (t :: h)) :
    (key, id) ∈ t.running.pairs ↔ Begun (t :: h) key id ∧ t.outcome? id = none := by
  generalize hg : t :: h = g at hc
  induction hc generalizing t h with
  | start =>
    cases hg
    refine ⟨fun hp => absurd hp List.not_mem_nil, fun hb => ?_⟩
    obtain ⟨newer, t', t, older, hh, -⟩ := hb.1
    have hlength := congrArg List.length hh
    simp at hlength
    omega
  | @turn x _ g hc hturn ih =>
    cases hg
    have hold := ih rfl
    rw [begun_cons]
    cases hturn with
    | rest =>
      rw [hold]
      exact and_congr_left fun _ => (or_iff_right fun hb => Nat.succ_ne_self _ hb.next.symm).symm
    | begin k hkey =>
      -- the flight that begins now takes the next number, which has no outcome yet
      rw [begun_pairs hkey, List.mem_append, hold, List.mem_singleton, Prod.mk.injEq]
      constructor
      · rintro (⟨hb, hnone⟩ | ⟨rfl, rfl⟩)
        · exact ⟨.inr hb, hnone⟩
        · exact ⟨.inl ⟨hkey, rfl, rfl⟩, hc.isOrderly.outcome?_next⟩
      · rintro ⟨hb | hb, hnone⟩
        · exact .inr ⟨hb.key_eq hkey, hb.id.symm⟩
        · exact .inl ⟨hb, hnone⟩
    | land k i o hkey =>
      constructor
      · intro hp
        obtain ⟨hb, hnone⟩ := hold.mp (mem_land.mp hp).1
        rw [outcome?_land, hc.isOrderly.ne_of_mem_land hkey hp]
        exact ⟨.inr hb, hnone⟩
      · rintro ⟨hb | hb, hnone⟩
        · exact absurd hb.next.symm (Nat.succ_ne_self _)
        · rw [outcome?_land] at hnone
          split at hnone
          · cases hnone
          · next hid =>
            refine mem_land.mpr ⟨hold.mpr ⟨hb, hnone⟩, ?_⟩
            simp [Bool.eq_false_iff.mpr fun h => hid (beq_iff_eq.mpr (eq_of_beq h).symm)]

end Chronicle
end LanguageServer.FlightTable

/-! The flights of a table followed through a history: when each began and was seen in the air, when
it landed, and what its outcome means. -/
namespace LanguageServer

/-- No flight is in the air, and those that have ended are among those that have begun. -/
structure FlightTable.IsIdle {κ ν : Type} (t : FlightTable κ ν) : Prop where
  grounded : t.running.pairs = []
  ended : ∀ id, t.outcome? id ≠ none → id < t.next

theorem FlightTable.isIdle_empty {κ ν : Type} : (empty : FlightTable κ ν).IsIdle :=
  ⟨rfl, fun _ hid => absurd rfl hid⟩

/-- A flight as it began, with what had happened by then. -/
structure Logged (μ κ : Type) where
  id : FlightId
  key : κ
  start : List μ

/-- Which flights have begun, and which have landed, each with what had happened by then. -/
structure Logbook (μ κ : Type) where
  begun : List (Logged μ κ)
  landed : List (FlightId × List μ)

namespace Logbook

variable {μ κ ν : Type}

def begin (l : Logbook μ κ) (x : Logged μ κ) : Logbook μ κ := { l with begun := x :: l.begun }

def land (l : Logbook μ κ) (id : FlightId) (h : List μ) : Logbook μ κ :=
  { l with landed := (id, h) :: l.landed }

/-- Nothing is taken out of the book, and what is entered lands after this history. -/
structure Grows (h : List μ) (l l' : Logbook μ κ) : Prop where
  begun : l.begun <:+ l'.begun
  landed : ∀ p ∈ l'.landed, p ∈ l.landed ∨ h <:+ p.2

/-- What the book says is true of a table whose states a history has. -/
structure Fits (table : μ → FlightTable κ ν)
    (means : Logged μ κ → List μ → Except Failure ν → Prop) (h : List μ) (l : Logbook μ κ)
    (t : FlightTable κ ν) : Prop where
  running : ∀ p ∈ t.running.pairs, t.outcome? p.2 = none ∧ ∃ x ∈ l.begun, x.id = p.2 ∧ x.key = p.1 ∧
    ∀ m older, m :: older <:+ h → x.start <:+ older → p ∈ (table m).running.pairs
  outcomes : ∀ x ∈ l.begun, ∀ o, t.outcome? x.id = some o →
    ∃ told, (x.id, told) ∈ l.landed ∧ x.start <:+ told ∧ told <:+ h ∧ means x told o
  started : ∀ x ∈ l.begun, x.start <:+ h
  landed : ∀ p ∈ l.landed, t.outcome? p.1 ≠ none
  distinct : ∀ x ∈ l.begun, ∀ y ∈ l.begun, x.id = y.id → x = y
  known : ∀ x ∈ l.begun, x.id < t.next
  ended : ∀ id, t.outcome? id ≠ none → id < t.next

theorem Grows.refl (h : List μ) (l : Logbook μ κ) : Grows h l l :=
  ⟨List.suffix_rfl, fun _ hp => .inl hp⟩

theorem Grows.trans {h h' : List μ} {l l' l'' : Logbook μ κ} (hl : Grows h l l')
    (hl' : Grows h' l' l'') (hh : h <:+ h') : Grows h l l'' where
  begun := hl.begun.trans hl'.begun
  landed p hp := by
    obtain hp | hp := hl'.landed p hp
    · exact hl.landed p hp
    · exact .inr (hh.trans hp)

theorem not_suffix_of_cons_suffix {m : μ} {h older : List μ} (hm : m :: older <:+ h) :
    ¬ h <:+ older := fun ho => by
  have hlonger : older.length + 1 ≤ h.length := hm.length_le
  have := ho.length_le
  omega

namespace Fits

variable {table : μ → FlightTable κ ν} {means : Logged μ κ → List μ → Except Failure ν → Prop}
  {h : List μ} {l : Logbook μ κ} {t : FlightTable κ ν} {x : Logged μ κ} {o : Except Failure ν}

/-- A new book fits a table of which no flight is in the air. -/
theorem idle (ht : t.IsIdle) : Fits table means h ⟨[], []⟩ t where
  running p hp := by simp [ht.grounded] at hp
  outcomes x hx := by cases hx
  started x hx := by cases hx
  landed p hp := by cases hp
  distinct x hx := by cases hx
  known x hx := by cases hx
  ended := ht.ended

/-- A moment passes in which the table is as it was. -/
theorem next (hl : Fits table means h l t) {m : μ} (hm : table m = t) :
    Fits table means (m :: h) l t := by
  refine { hl with
    running := fun p hp => ?_
    outcomes := fun x hx o ho => ?_
    started := fun x hx => (hl.started x hx).trans (List.suffix_cons m h) }
  · obtain ⟨hwaits, x, hx, hid, hkey, haloft⟩ := hl.running p hp
    refine ⟨hwaits, x, hx, hid, hkey, fun n older hn hstart => ?_⟩
    obtain hn | hn := List.suffix_cons_iff.mp hn
    · cases hn
      exact hm.symm ▸ hp
    · exact haloft n older hn hstart
  · obtain ⟨told, htold, hstart, hh, hmeans⟩ := hl.outcomes x hx o ho
    exact ⟨told, htold, hstart, hh.trans (List.suffix_cons m h), hmeans⟩

theorem outcome?_next (hl : Fits table means h l t) : t.outcome? t.next = none := by
  by_contra hsome
  exact Nat.lt_irrefl _ (hl.ended _ hsome)

variable [BEq κ] [LawfulBEq κ]

theorem begun (hl : Fits table means h l t) (key : κ) :
    Fits table means h (l.begin ⟨t.next, key, h⟩) (t.begun key) := by
  refine { hl with
    running := fun p hp => ?_
    outcomes := ?_
    started := List.forall_mem_cons.mpr ⟨List.suffix_rfl, hl.started⟩
    distinct := fun x hx y hy hid => ?_
    known := ?_
    ended := fun id hid => Nat.lt_succ_of_lt (hl.ended id hid) }
  · obtain hp | rfl := Table.mem_insert hp
    · obtain ⟨hwaits, x, hx, hfits⟩ := hl.running p hp
      exact ⟨hwaits, x, List.mem_cons_of_mem _ hx, hfits⟩
    · refine ⟨hl.outcome?_next, _, List.mem_cons_self, rfl, rfl, fun m older hm ho => ?_⟩
      exact absurd ho (not_suffix_of_cons_suffix hm)
  · refine List.forall_mem_cons.mpr ⟨fun o ho => ?_, hl.outcomes⟩
    cases hl.outcome?_next.symm.trans ho
  · obtain rfl | hx := List.mem_cons.mp hx <;> obtain rfl | hy := List.mem_cons.mp hy
    · rfl
    · exact absurd (hl.known y hy) (hid ▸ Nat.lt_irrefl _)
    · exact absurd (hl.known x hx) (hid ▸ Nat.lt_irrefl _)
    · exact hl.distinct x hx y hy hid
  · exact List.forall_mem_cons.mpr
      ⟨Nat.lt_succ_self _, fun x hx => Nat.lt_succ_of_lt (hl.known x hx)⟩

/-- A flight lands with what is meant by its outcome. -/
theorem land (hl : Fits table means h l t) (hx : x ∈ l.begun) (ho : means x h o) :
    Fits table means h (l.land x.id h) (t.land x.key x.id o) := by
  have houtcome (id : FlightId) : (t.land x.key x.id o).outcome? id =
      if x.id == id then some o else t.outcome? id := Table.find?_insert _ _ _ _
  refine { hl with
    running := fun p hp => ?_
    outcomes := fun y hy r hr => ?_
    landed := ?_
    ended := fun id hid => ?_ }
  · obtain ⟨hp, hother⟩ := List.mem_filter.mp hp
    obtain ⟨hwaits, y, hy, hid, hkey, haloft⟩ := hl.running p hp
    refine ⟨?_, y, hy, hid, hkey, haloft⟩
    rw [houtcome, if_neg, hwaits]
    intro hsame
    -- a flight that stays in the table is not the one that lands
    obtain rfl : x = y := hl.distinct x hx y hy ((eq_of_beq hsame).trans hid.symm)
    simp [hid, hkey] at hother
  · rw [houtcome] at hr
    split at hr
    · next hid =>
      obtain rfl : x = y := hl.distinct x hx y hy (eq_of_beq hid)
      cases hr
      exact ⟨h, List.mem_cons_self, hl.started x hx, List.suffix_rfl, ho⟩
    · obtain ⟨told, htold, hmeans⟩ := hl.outcomes y hy r hr
      exact ⟨told, List.mem_cons_of_mem _ htold, hmeans⟩
  · refine List.forall_mem_cons.mpr ⟨?_, fun p hp => ?_⟩
    · simp [houtcome]
    · rw [houtcome]
      split
      · simp
      · exact hl.landed p hp
  · rw [houtcome] at hid
    split at hid
    · next hx' => exact eq_of_beq hx' ▸ hl.known x hx
    · exact hl.ended id hid

end Fits
end Logbook

/-- A table of flights in a state, its book in a world, and what they are told by. -/
structure Hangar (ω σ μ κ ν : Type) where
  flights : Lens σ (FlightTable κ ν)
  book : Lens ω (Logbook μ κ)
  history : ω → List μ
  table : μ → FlightTable κ ν
  means : Logged μ κ → List μ → Except Failure ν → Prop

namespace Hangar

variable {ω σ μ κ ν : Type} [BEq κ]

/-- A contract under which the book fits the table, and by which flights begin and land. -/
structure Serves (c : Contract ω σ) (H : Hangar ω σ μ κ ν) : Prop where
  lawful : H.flights.IsLawful
  book_set : ∀ l w, H.book.get (H.book.set l w) = l
  history_set : ∀ l w, H.history (H.book.set l w) = H.history w
  fits : ∀ w s, c.holds w s →
    (H.book.get w).Fits H.table H.means (H.history w) (H.flights.get s)
  put : ∀ w s l t, c.holds w s → l.Fits H.table H.means (H.history w) t →
    c.holds (H.book.set l w) (H.flights.set t s)
  own : ∀ w l, (H.book.get w).Grows (H.history w) l → c.own w (H.book.set l w)
  others : ∀ w v, c.others w v →
    H.history w <:+ H.history v ∧ (H.book.get w).Grows (H.history w) (H.book.get v)

/-- How a flight of a key has fared that a caller was given after a history: it began by then and was
in the air ever since, or it began later; and it has landed after that. -/
structure Flew (H : Hangar ω σ μ κ ν) (key : κ) (h : List μ) (x : Logged μ κ) (told : List μ) :
    Prop where
  isOf : x.key = key
  aloft : ∀ m older, m :: older <:+ h → x.start <:+ older → (key, x.id) ∈ (H.table m).running.pairs
  started : x.start <:+ told
  landed : h <:+ told

variable [LawfulBEq κ] {c : Contract ω σ} (hc : c.Orderly) {H : Hangar ω σ μ κ ν}
  (hH : H.Serves c) {w : ω} {s : σ} {key : κ} {work : Task σ (Except Failure ν)}
include hc hH

omit hc in
theorem work_meets {x : Logged μ κ} (hx : x.key = key) {v : ω}
    (hwork : work.MeetsFrom c true (fun o v s => c.holds v s ∧ x ∈ (H.book.get v).begun ∧
      H.means x (H.history v) o) v s) :
    (work.bind fun o => Task.modify (H.flights.modify (·.land key x.id o))).MeetsFrom c true
      (fun _ => c.Rests) v s := by
  refine Task.MeetsFrom.bind (hwork.mono fun o v s hv _ now => ?_)
  obtain ⟨hs, hbegun, hmeans⟩ := hv
  refine ⟨H.book.set ((H.book.get v).land x.id (H.history v)) v, hH.own v _ ⟨List.suffix_rfl, ?_⟩,
    hx ▸ hH.put v s _ _ hs ((hH.fits v s hs).land hbegun hmeans)⟩
  refine List.forall_mem_cons.mpr ⟨.inr List.suffix_rfl, fun p hp => .inl hp⟩

/-- Whoever asks for a key gets the outcome of a flight of the key that lands after that. -/
theorem meets_share (hs : c.holds w s) {Q : Except Failure ν → ω → σ → Prop}
    (hwork : ∀ x, x.key = key → x.start = H.history w → ∀ v s, c.holds v s →
      H.history w <:+ H.history v → x ∈ (H.book.get v).begun →
      work.MeetsFrom c true (fun o v s => c.holds v s ∧ x ∈ (H.book.get v).begun ∧
        H.means x (H.history v) o) v s)
    (hQ : ∀ o v s x told, c.holds v s → c.others w v → told <:+ H.history v → H.means x told o →
      H.Flew key (H.history w) x told → Q o v s) :
    (FlightTable.join H.flights key (fun _ => none) (fun s => ((), s)) (fun _ => work) >>=
      FlightTable.await H.flights).Meets c Q w s := by
  have hfits := hH.fits w s hs
  -- a flight that is in the air at a wait lands after it
  have hlands {u : ω} (hu : c.own w u) (huh : H.history u = H.history w)
      {x : Logged μ κ} (hx : x ∈ (H.book.get u).begun) (hkey : x.key = key)
      (haloft : ∀ m older, m :: older <:+ H.history w → x.start <:+ older →
        (key, x.id) ∈ (H.table m).running.pairs)
      (hwaits : ∀ p ∈ (H.book.get u).landed, p.1 ≠ x.id) {v : ω} {s' : σ} (hv : c.others u v)
      (hs' : c.holds v s') (o : Except Failure ν) (ho : (H.flights.get s').outcome? x.id = some o) :
      Q o v s' := by
    obtain ⟨-, hgrows⟩ := hH.others u v hv
    obtain ⟨told, htold, hstart, hh, hmeans⟩ :=
      (hH.fits v s' hs').outcomes x (hgrows.begun.subset hx) o ho
    have hlater : H.history w <:+ told := by
      obtain hold | hlater := hgrows.landed _ htold
      · exact absurd rfl (hwaits _ hold)
      · exact huh ▸ hlater
    exact hQ o v s' x told hs' (hc.others_of_own _ _ _ hu hv) hh hmeans
      ⟨hkey, haloft, hstart, hlater⟩
  have hunlanded {id : FlightId} (hwaits : (H.flights.get s).outcome? id = none) :
      ∀ p ∈ (H.book.get w).landed, p.1 ≠ id := by
    rintro p hp rfl
    exact hfits.landed p hp hwaits
  rw [Task.meets_then]
  refine FlightTable.meets_join (fun id hid => ?_) (by simp) fun hnone _ => ?_
  · rw [hH.lawful.set_get]
    obtain ⟨hwaits, x, hx, rfl, hkey, haloft⟩ := hfits.running _ (Table.mem_of_find? hid)
    refine FlightTable.meets_await (by simp) fun id' hid' => ?_
    cases hid'
    exact ⟨w, hc.own_refl w, hs, fun v s' hv hs' => ⟨fun _ => hc.stalls s', fun o ho =>
      hlands (hc.own_refl w) rfl hx hkey haloft (hunlanded hwaits) hv hs' o ho⟩⟩
  · let x : Logged μ κ := ⟨(H.flights.get s).next, key, H.history w⟩
    let u := H.book.set ((H.book.get w).begin x) w
    have hu : c.own w u := hH.own w _ ⟨List.suffix_cons x _, fun p hp => .inl hp⟩
    have hbook : H.book.get u = (H.book.get w).begin x := hH.book_set _ w
    have hx : x ∈ (H.book.get u).begun := hbook ▸ List.mem_cons_self
    have hnew := hH.put w s _ _ hs (hfits.begun key)
    refine ⟨u, hu, fun _ v s' hv hs' => ?_, ?_⟩
    · obtain ⟨hh, hgrows⟩ := hH.others u v hv
      refine work_meets (x := x) hH rfl (hwork x rfl rfl v s' hs' ?_ (hgrows.begun.subset hx))
      exact (hH.history_set _ w).symm ▸ hh
    · refine FlightTable.meets_await (by simp) fun id hid => ?_
      cases hid
      refine ⟨u, hc.own_refl u, hnew, fun v s' hv hs' => ⟨fun _ => hc.stalls s', fun o ho => ?_⟩⟩
      refine hlands hu (hH.history_set _ w) hx rfl (fun m older hm ho => ?_) ?_ hv hs' o ho
      · exact absurd ho (Logbook.not_suffix_of_cons_suffix hm)
      · rw [hbook]
        exact hunlanded hfits.outcome?_next

end Hangar
end LanguageServer
