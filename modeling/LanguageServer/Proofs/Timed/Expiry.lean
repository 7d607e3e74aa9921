import LanguageServer.Timed.Cache

/-! A cache beside the map that it stands for. That map forgets nothing by itself: a reading shows what
was written last, if it was written less than a lifetime ago. The cache drops what has expired when it
comes upon it, so what it holds lags behind the map by expired entries, and by nothing else. -/
namespace LanguageServer

namespace Table

variable {κ ν : Type} [BEq κ] {t : Table κ ν} {p : κ → ν → Bool} {k j : κ}

def Distinct (t : Table κ ν) : Prop := t.keys.Pairwise fun k j => (k == j) = false

/-- A key is added last, unless it is there. -/
theorem keys_insert (t : Table κ ν) (k : κ) (v : ν) :
    (t.insert k v).keys = if t.contains k then t.keys else t.keys ++ [k] := by
  have go (pairs : List (κ × ν)) : (insert.go k v pairs).map (·.1) =
      if pairs.any (fun p => p.1 == k) then pairs.map (·.1) else pairs.map (·.1) ++ [k] := by
    induction pairs with
    | nil => rfl
    | cons p rest ih =>
      by_cases hp : p.1 == k
      · simp [insert.go, hp]
      · rw [insert.go, if_neg hp, List.map_cons, ih, List.any_cons, Bool.eq_false_iff.mpr hp]
        simp only [Bool.false_or, apply_ite (p.1 :: ·)]
        rfl
  exact go t.pairs

theorem Distinct.insert (h : t.Distinct) (k : κ) (v : ν) : (t.insert k v).Distinct := by
  unfold Distinct
  rw [keys_insert]
  split
  · exact h
  · next hk =>
    refine List.pairwise_append.mpr ⟨h, List.pairwise_singleton _ _, fun j hj l hl => ?_⟩
    obtain rfl := List.mem_singleton.mp hl
    obtain ⟨x, hx, rfl⟩ := List.mem_map.mp hj
    exact Bool.eq_false_iff.mpr fun heq => hk (List.any_eq_true.mpr ⟨x, hx, heq⟩)

theorem Distinct.filter (h : t.Distinct) (p : κ → ν → Bool) : (t.filter p).Distinct :=
  h.sublist (List.filter_sublist.map _)

theorem Distinct.erase (h : t.Distinct) (k : κ) : (t.erase k).Distinct :=
  h.sublist (List.filter_sublist.map _)

variable [EquivBEq κ]

theorem find?_congr (h : k == j) : t.find? k = t.find? j := by
  simp only [find?, BEq.congr_right h]

theorem Distinct.find?_of_mem (h : t.Distinct) {v : ν} (hk : (k, v) ∈ t.pairs) :
    t.find? k = some v := by
  have go (pairs : List (κ × ν)) (hpairs : (pairs.map (·.1)).Pairwise fun k j => (k == j) = false)
      (hk : (k, v) ∈ pairs) : (pairs.find? fun p => p.1 == k).map (·.2) = some v := by
    induction pairs with
    | nil => cases hk
    | cons p rest ih =>
      obtain ⟨hp, hrest⟩ := List.pairwise_cons.mp hpairs
      obtain rfl | hk := List.mem_cons.mp hk
      · simp
      · have hne : ¬ (p.1 == k) = true := Bool.eq_false_iff.mp (hp k (List.mem_map.mpr ⟨_, hk, rfl⟩))
        rw [List.find?_cons_of_neg (by simpa using hne)]
        exact ih hrest hk
  exact go t.pairs h hk

/-- A filter that judges alike what cannot be told apart keeps the value of a key, or drops it. -/
theorem Distinct.find?_filter (ht : t.Distinct) (h : ∀ j v, j == k → p j v = p k v) :
    (t.filter p).find? k = (t.find? k).filter (p k) := by
  have go (pairs : List (κ × ν)) (hpairs : (pairs.map (·.1)).Pairwise fun k j => (k == j) = false) :
      ((pairs.filter fun x => p x.1 x.2).find? fun x => x.1 == k).map (·.2) =
        ((pairs.find? fun x => x.1 == k).map (·.2)).filter (p k) := by
    induction pairs with
    | nil => rfl
    | cons x rest ih =>
      obtain ⟨hx, hrest⟩ := List.pairwise_cons.mp hpairs
      by_cases hk : x.1 == k
      · -- the rest has no such key
        have hnone : ((rest.filter fun x => p x.1 x.2).find? fun x => x.1 == k) = none := by
          refine List.find?_eq_none.mpr fun y hy hyk => ?_
          have hne := hx y.1 (List.mem_map.mpr ⟨y, (List.mem_filter.mp hy).1, rfl⟩)
          rw [BEq.trans hk (BEq.symm hyk)] at hne
          cases hne
        by_cases hp : p x.1 x.2
        · have hpk : p k x.2 = true := h x.1 x.2 hk ▸ hp
          simp [hp, hk, Option.filter, hpk]
        · have hpk : p k x.2 = false := h x.1 x.2 hk ▸ Bool.eq_false_iff.mpr hp
          simp [hp, hnone, hk, Option.filter, hpk]
      · by_cases hp : p x.1 x.2
        · simpa [hp, hk] using ih hrest
        · simpa [hp, hk] using ih hrest
  exact go t.pairs ht

end Table

namespace Timed.Cache

variable {κ ν : Type} [BEq κ]

/-- Reads the entry of a key; an expired one is dropped on the way. -/
def look (c : Cache κ ν) (now : Instant) (k : κ) : Option (Stamped ν) × Cache κ ν :=
  (c.entry? now k, c.settle now k)

/-- To read a value is to read its entry. -/
theorem get_eq_look (c : Cache κ ν) (now : Instant) (k : κ) :
    c.get now k = ((c.look now k).1.map (·.value), (c.look now k).2) := rfl

/-- What is done to a cache, and the passing of time. -/
inductive Deed (κ ν : Type) [BEq κ] where
  | insert (k : κ) (v : ν)
  | get (k : κ)
  | look (k : κ)
  | take (k : κ)
  /-- Keeps what `p` admits, which judges alike what cannot be told apart. -/
  | filter (p : κ → ν → Bool) (alike : ∀ k j v, k == j → p k v = p j v)
  | clear
  | purge
  | wait (d : Duration)

/-- A cache at a point in time. -/
structure Moment (κ ν : Type) where
  now : Instant
  cache : Cache κ ν

namespace Moment

/-- The answer to a reading of a value. -/
def value? (m : Moment κ ν) (k : κ) : Option ν := (m.cache.get m.now k).1

/-- The answer to a reading of an entry. -/
def stamped? (m : Moment κ ν) (k : κ) : Option (Stamped ν) := (m.cache.look m.now k).1

theorem value?_eq (m : Moment κ ν) (k : κ) : m.value? k = (m.stamped? k).map (·.value) :=
  congrArg Prod.fst (get_eq_look m.cache m.now k)

end Moment

namespace Deed

def play : Deed κ ν → Moment κ ν → Moment κ ν
  | .insert k v, m => { m with cache := m.cache.insert m.now k v }
  | .get k, m => { m with cache := (m.cache.get m.now k).2 }
  | .look k, m => { m with cache := (m.cache.look m.now k).2 }
  | .take k, m => { m with cache := (m.cache.take k).2 }
  | .filter p _, m => { m with cache := m.cache.filter p }
  | .clear, m => { m with cache := m.cache.clear }
  | .purge, m => { m with cache := (m.cache.purge m.now).2 }
  | .wait d, m => { m with now := m.now.after d }

def length : Deed κ ν → Nat
  | .wait d => d.nanos
  | _ => 0

def isReading : Deed κ ν → Bool
  | .get _ | .look _ | .purge => true
  | _ => false

/-- Whether a deed ends what a value written under a key stands for. -/
def ends (k : κ) (v : ν) : Deed κ ν → Bool
  | .insert j _ | .take j => j == k
  | .filter p _ => !p k v
  | .clear => true
  | .get _ | .look _ | .purge | .wait _ => false

/-- What a deed makes of the last writings. -/
def write (now : Instant) (w : κ → Option (Stamped ν)) (k : κ) : Deed κ ν → Option (Stamped ν)
  | .insert j v => if j == k then some ⟨v, now⟩ else w k
  | .take j => if j == k then none else w k
  | .filter p _ => (w k).filter fun e => p k e.value
  | .clear => none
  | .get _ | .look _ | .purge | .wait _ => w k

end Deed

/-- The time that some deeds take. -/
def spent : List (Deed κ ν) → Duration
  | [] => ⟨0⟩
  | d :: before => ⟨(spent before).nanos + d.length⟩

/-- A cache that was empty, after some deeds. The last of them comes first. -/
def after (lifetime : Duration) (start : Instant) : List (Deed κ ν) → Moment κ ν
  | [] => ⟨start, .empty lifetime⟩
  | d :: before => d.play (after lifetime start before)

/-- The last writing of a key that nothing has ended. -/
def written? (start : Instant) : List (Deed κ ν) → κ → Option (Stamped ν)
  | [], _ => none
  | d :: before, k => d.write (start.after (spent before)) (written? start before) k

/-- A history with a writing of `v` under `k` that nothing has ended in the deeds since. -/
structure Stands (k : κ) (v : ν) (since before history : List (Deed κ ν)) : Prop where
  written : ∃ j, j == k ∧ history = since ++ .insert j v :: before
  since : ∀ d ∈ since, d.ends k v = false

section History

variable {lifetime : Duration} {start : Instant} {history since before : List (Deed κ ν)} {d : Deed κ ν}
  {k j : κ} {v : ν} {e : Stamped ν}

theorem after_spent_cons (d : Deed κ ν) (before : List (Deed κ ν)) :
    start.after (spent (d :: before)) = (start.after (spent before)).after ⟨d.length⟩ :=
  congrArg Instant.mk (Nat.add_assoc start.nanos (spent before).nanos d.length).symm

theorem spent_append (since before : List (Deed κ ν)) :
    spent (since ++ before) = ⟨(spent since).nanos + (spent before).nanos⟩ := by
  induction since with
  | nil => exact congrArg Duration.mk (Nat.zero_add _).symm
  | cons d since ih =>
    simp only [List.cons_append, spent, ih]
    congr 1
    omega

/-- What was written a while ago is as old as the deeds since have taken. -/
theorem since_spent (since before : List (Deed κ ν)) (k : κ) (v : ν) :
    (start.after (spent (since ++ .insert k v :: before))).since (start.after (spent before)) =
      spent since := by
  simp only [Instant.after, Instant.since, spent_append, spent, Deed.length]
  congr 1
  omega

theorem now_play (d : Deed κ ν) (m : Moment κ ν) : (d.play m).now = m.now.after ⟨d.length⟩ := by
  cases d <;> rfl

theorem now_after (history : List (Deed κ ν)) :
    (after lifetime start history).now = start.after (spent history) := by
  induction history with
  | nil => rfl
  | cons d before ih => rw [after, now_play, ih, after_spent_cons]

/-- Whatever is no writing of a key leaves the last one, or ends it. -/
theorem write_eq_some_iff {w : κ → Option (Stamped ν)} {now : Instant} :
    d.write now w k = some e ↔
      (∃ j, j == k ∧ d = .insert j e.value ∧ e.written = now) ∨
        w k = some e ∧ d.ends k e.value = false := by
  cases d with
  | insert j v =>
    by_cases hj : j == k
    · simp only [Deed.write, hj, if_true, Option.some.injEq, Deed.ends, Bool.true_eq_false, and_false,
        or_false]
      constructor
      · rintro rfl
        exact ⟨j, hj, rfl, rfl⟩
      · rintro ⟨j', -, heq, hnow⟩
        cases heq
        cases e
        cases hnow
        rfl
    · have hne : ∀ i, i == k → ¬ (Deed.insert j v : Deed κ ν) = .insert i e.value := by
        rintro i hi heq
        cases heq
        exact hj hi
      simp only [Deed.write, Deed.ends, Bool.eq_false_iff.mpr hj, and_true]
      exact ⟨.inr, fun h => h.resolve_left fun ⟨i, hi, heq, _⟩ => hne i hi heq⟩
  | take j => by_cases hj : j == k <;> simp [Deed.write, Deed.ends, hj]
  | _ => simp [Deed.write, Deed.ends, Option.filter_eq_some_iff]

/-- The last writing of a key, found in the history. -/
theorem written?_eq_some_iff : written? start history k = some e ↔
    ∃ since before, Stands k e.value since before history ∧ e.written = start.after (spent before) := by
  induction history with
  | nil =>
    refine ⟨nofun, ?_⟩
    rintro ⟨since, before, ⟨⟨j, -, heq⟩, -⟩, -⟩
    simp at heq
  | cons d past ih =>
    rw [written?, write_eq_some_iff, ih]
    constructor
    · rintro (⟨j, hj, rfl, hnow⟩ | ⟨⟨since, before, ⟨⟨j, hj, rfl⟩, hsince⟩, hnow⟩, hd⟩)
      · exact ⟨[], past, ⟨⟨j, hj, rfl⟩, nofun⟩, hnow⟩
      · exact ⟨d :: since, before, ⟨⟨j, hj, rfl⟩, List.forall_mem_cons.mpr ⟨hd, hsince⟩⟩, hnow⟩
    · rintro ⟨since, before, ⟨⟨j, hj, heq⟩, hsince⟩, hnow⟩
      cases since with
      | nil =>
        cases heq
        exact .inl ⟨j, hj, rfl, hnow⟩
      | cons d' since =>
        cases heq
        obtain ⟨hd, hsince⟩ := List.forall_mem_cons.mp hsince
        exact .inr ⟨⟨since, before, ⟨⟨j, hj, rfl⟩, hsince⟩, hnow⟩, hd⟩

end History

/-- What is held of a last writing: the writing, or nothing once it has expired. -/
def Recalls (now : Instant) (lifetime : Duration) (held written : Option (Stamped ν)) : Prop :=
  held = written ∨ held = none ∧ ∀ e ∈ written, e.isFresh now lifetime = false

section Recalls

variable {now t t' : Instant} {lifetime : Duration} {held written : Option (Stamped ν)}
  {e : Stamped ν}

theorem Recalls.later (h : Recalls t lifetime held written) (ht : t ≤ t') :
    Recalls t' lifetime held written :=
  h.imp_right fun ⟨hnone, hold⟩ => ⟨hnone, fun e he => Stamped.isFresh_later (hold e he) ht⟩

theorem Recalls.filter (h : Recalls t lifetime held written) (p : Stamped ν → Bool) :
    Recalls t lifetime (held.filter p) (written.filter p) := by
  obtain rfl | ⟨rfl, hold⟩ := h
  · exact .inl rfl
  · exact .inr ⟨rfl, fun e he => hold e (Option.filter_eq_some_iff.mp he).1⟩

/-- Nothing is lost that is not expired. -/
theorem Recalls.settle (h : Recalls t lifetime held written) :
    Recalls t lifetime (held.filter (·.isFresh t lifetime)) written := by
  obtain rfl | ⟨rfl, hold⟩ := h
  · cases held with
    | none => exact .inl rfl
    | some e =>
      cases hfresh : e.isFresh t lifetime with
      | true => exact .inl (by simp [Option.filter, hfresh])
      | false =>
        refine .inr ⟨by simp [Option.filter, hfresh], fun e' he' => ?_⟩
        cases he'
        exact hfresh
  · exact .inr ⟨rfl, hold⟩

/-- Of a last writing as much is fresh as of what is held of it. -/
theorem Recalls.fresh (h : Recalls t lifetime held written) :
    held.filter (·.isFresh t lifetime) = written.filter (·.isFresh t lifetime) := by
  obtain rfl | ⟨rfl, hold⟩ := h
  · rfl
  · refine (Option.filter_eq_none_iff.mpr fun e he => ?_).symm
    simp [hold e he]

theorem Recalls.eq_of_held (h : Recalls t lifetime held written) (he : held = some e) :
    written = some e := by
  obtain rfl | ⟨rfl, -⟩ := h
  · exact he
  · cases he

end Recalls

/-- A cache holds the last writings, but for some that have expired. -/
structure Refines (w : κ → Option (Stamped ν)) (m : Moment κ ν) : Prop where
  distinct : m.cache.entries.Distinct
  recalls : ∀ k, Recalls m.now m.cache.lifetime (m.cache.entries.find? k) (w k)

section Run

variable [EquivBEq κ] {lifetime : Duration} {start : Instant} {history since before : List (Deed κ ν)}
  {w : κ → Option (Stamped ν)} {m : Moment κ ν} {k : κ} {v : ν} {e : Stamped ν}

/-- A look at a key drops its entry if that has expired. -/
theorem held_settle (c : Cache κ ν) (now : Instant) (k j : κ) :
    (c.settle now k).entries.find? j =
      if k == j then (c.entries.find? j).filter (·.isFresh now c.lifetime) else c.entries.find? j := by
  unfold settle
  by_cases hkj : k == j
  · rw [if_pos hkj, Table.find?_congr hkj]
    cases he : c.entries.find? j with
    | none => simp [he]
    | some e =>
      by_cases hfresh : e.isFresh now c.lifetime
      · simp [he, hfresh, Option.filter]
      · simp [hfresh, Option.filter, Table.find?_erase, hkj]
  · rw [if_neg hkj]
    split
    · split
      · rfl
      · rw [Table.find?_erase, if_neg hkj]
    · rfl

theorem Refines.settle (h : Refines w m) (k : κ) :
    Refines w { m with cache := m.cache.settle m.now k } where
  distinct := by
    unfold Cache.settle
    split
    · split
      · exact h.distinct
      · exact h.distinct.erase k
    · exact h.distinct
  recalls j := by
    show Recalls m.now (m.cache.settle m.now k).lifetime ((m.cache.settle m.now k).entries.find? j) (w j)
    rw [lifetime_settle, held_settle]
    split
    · exact (h.recalls j).settle
    · exact h.recalls j

/-- Each deed does to what is held what it does to the last writings, up to expired entries. -/
theorem Refines.play (h : Refines w m) (d : Deed κ ν) :
    Refines (fun k => d.write m.now w k) (d.play m) := by
  cases d with
  | insert j v =>
    refine ⟨h.distinct.insert j ⟨v, m.now⟩, fun k => ?_⟩
    simp only [Deed.play, Cache.insert, Deed.write, Table.find?_insert]
    split
    · exact .inl rfl
    · exact h.recalls k
  | get j => exact h.settle j
  | look j => exact h.settle j
  | take j =>
    refine ⟨h.distinct.erase j, fun k => ?_⟩
    simp only [Deed.play, Cache.take, Cache.erase, Deed.write, Table.find?_erase]
    split
    · exact .inl rfl
    · exact h.recalls k
  | filter p alike =>
    refine ⟨h.distinct.filter _, fun k => ?_⟩
    simp only [Deed.play, Cache.filter, Deed.write]
    rw [h.distinct.find?_filter fun j e hj => alike j k e.value hj]
    exact (h.recalls k).filter _
  | clear => exact ⟨.nil, fun _ => .inl rfl⟩
  | purge =>
    refine ⟨h.distinct.filter _, fun k => ?_⟩
    simp only [Deed.play, Cache.purge, Deed.write]
    rw [h.distinct.find?_filter fun _ _ _ => rfl]
    exact (h.recalls k).settle
  | wait d => exact ⟨h.distinct, fun k => (h.recalls k).later (Nat.le_add_right m.now.nanos d.nanos)⟩

theorem refines_after (lifetime : Duration) (start : Instant) (history : List (Deed κ ν)) :
    Refines (written? start history) (after lifetime start history) := by
  induction history with
  | nil => exact ⟨.nil, fun _ => .inl rfl⟩
  | cons d before ih =>
    have hstep := ih.play d
    rw [now_after] at hstep
    exact hstep

omit [EquivBEq κ] in
theorem lifetime_play (d : Deed κ ν) (m : Moment κ ν) :
    (d.play m).cache.lifetime = m.cache.lifetime := by
  cases d with
  | get k => exact lifetime_settle m.cache m.now k
  | look k => exact lifetime_settle m.cache m.now k
  | _ => rfl

omit [EquivBEq κ] in
theorem lifetime_after (history : List (Deed κ ν)) :
    (after lifetime start history).cache.lifetime = lifetime := by
  induction history with
  | nil => rfl
  | cons d before ih => rw [after, lifetime_play, ih]

/-- A reading shows the last writing, if it is fresh. -/
theorem stamped?_after (history : List (Deed κ ν)) (k : κ) :
    (after lifetime start history).stamped? k =
      (written? start history k).filter (·.isFresh (start.after (spent history)) lifetime) := by
  have h := ((refines_after lifetime start history).recalls k).fresh
  rw [lifetime_after, now_after] at h
  simpa only [Moment.stamped?, look, Cache.entry?, lifetime_after, now_after] using h

omit [EquivBEq κ] in
/-- A writing is fresh while the deeds since have taken less than the lifetime. -/
theorem isFresh_iff_of_stands (h : Stands k e.value since before history)
    (he : e.written = start.after (spent before)) :
    e.isFresh (start.after (spent history)) lifetime ↔ spent since < lifetime := by
  obtain ⟨j, -, rfl⟩ := h.written
  rw [Stamped.isFresh, he, since_spent, decide_eq_true_iff]

theorem stamped?_after_eq_some_iff : (after lifetime start history).stamped? k = some e ↔
    ∃ since before, Stands k e.value since before history ∧
      e.written = start.after (spent before) ∧ spent since < lifetime := by
  rw [stamped?_after, Option.filter_eq_some_iff, written?_eq_some_iff]
  constructor
  · rintro ⟨⟨since, before, h, he⟩, hfresh⟩
    exact ⟨since, before, h, he, (isFresh_iff_of_stands h he).mp hfresh⟩
  · rintro ⟨since, before, h, he, hfresh⟩
    exact ⟨⟨since, before, h, he⟩, (isFresh_iff_of_stands h he).mpr hfresh⟩

theorem value?_after_eq_some_iff : (after lifetime start history).value? k = some v ↔
    ∃ since before, Stands k v since before history ∧ spent since < lifetime := by
  rw [Moment.value?_eq, Option.map_eq_some_iff]
  constructor
  · rintro ⟨e, he, rfl⟩
    obtain ⟨since, before, h, -, hfresh⟩ := stamped?_after_eq_some_iff.mp he
    exact ⟨since, before, h, hfresh⟩
  · rintro ⟨since, before, h, hfresh⟩
    exact ⟨⟨v, start.after (spent before)⟩, stamped?_after_eq_some_iff.mpr ⟨since, before, h, rfl, hfresh⟩,
      rfl⟩

section Reading

variable {r : Deed κ ν} (hr : r.isReading)
include hr

omit [EquivBEq κ] in
theorem spent_reading (later history : List (Deed κ ν)) :
    spent (later ++ r :: history) = spent (later ++ history) := by
  have hlength : r.length = 0 := by cases r <;> first | rfl | cases hr
  have hspent : spent (r :: history) = spent history := by rw [spent, hlength, Nat.add_zero]
  rw [spent_append, hspent, ← spent_append]

omit [EquivBEq κ] in
/-- No reading has a part in the last writings. -/
theorem written?_reading (later history : List (Deed κ ν)) :
    written? start (later ++ r :: history) = written? start (later ++ history) := by
  induction later with
  | nil =>
    funext k
    cases r <;> first | rfl | cases hr
  | cons d later ih =>
    funext k
    rw [List.cons_append, List.cons_append, written?, written?, ih, spent_reading hr]

theorem value?_reading (later history : List (Deed κ ν)) (k : κ) :
    (after lifetime start (later ++ r :: history)).value? k =
      (after lifetime start (later ++ history)).value? k := by
  rw [Moment.value?_eq, Moment.value?_eq, stamped?_after, stamped?_after, written?_reading hr,
    spent_reading hr]

end Reading

/-- Every entry held is the last writing of its key, expired or not. -/
theorem exists_stands_of_mem {p : κ × Stamped ν}
    (hp : p ∈ (after lifetime start history).cache.entries.pairs) :
    ∃ since before, Stands p.1 p.2.value since before history ∧
      p.2.written = start.after (spent before) := by
  have h := refines_after lifetime start history
  exact written?_eq_some_iff.mp ((h.recalls p.1).eq_of_held (h.distinct.find?_of_mem hp))

end Run

omit [BEq κ] in
theorem purge_eq (c : Cache κ ν) (now : Instant) :
    (c.purge now).1 = c.entries.pairs.countP (fun p => !p.2.isFresh now c.lifetime) ∧
      (c.purge now).1 + (c.purge now).2.size = c.size := by
  have hsplit := List.length_eq_countP_add_countP (fun p : κ × Stamped ν => p.2.isFresh now c.lifetime)
    (l := c.entries.pairs)
  have hneg : (fun p : κ × Stamped ν => !p.2.isFresh now c.lifetime) =
      fun p => decide ¬ p.2.isFresh now c.lifetime = true := by
    funext p
    simp
  rw [hneg]
  simp only [purge, size, Table.size, Table.filter, ← List.countP_eq_length_filter]
  omega

/-- What a cache has to tell after a history, told by the history. -/
structure TellsTime (lifetime : Duration) (start : Instant) (history : List (Deed κ ν)) : Prop where
  /-- A value is read if it was written last, nothing has ended it and it has not expired. -/
  value : ∀ k v, (after lifetime start history).value? k = some v ↔
    ∃ since before, Stands k v since before history ∧ spent since < lifetime
  entry : ∀ k e, (after lifetime start history).stamped? k = some e ↔
    ∃ since before, Stands k e.value since before history ∧
      e.written = start.after (spent before) ∧ spent since < lifetime
  /-- Whatever comes later, it is read as if this reading had not been. -/
  reading : ∀ r : Deed κ ν, r.isReading → ∀ later k,
    (after lifetime start (later ++ r :: history)).value? k =
      (after lifetime start (later ++ history)).value? k
  /-- What is held are last writings, one for each key. -/
  held : (after lifetime start history).cache.entries.Distinct ∧
    ∀ p ∈ (after lifetime start history).cache.entries.pairs, ∃ since before,
      Stands p.1 p.2.value since before history ∧ p.2.written = start.after (spent before)
  /-- A purge counts those held that have expired, and leaves the others. -/
  purge : let m := after lifetime start history
    (m.cache.purge m.now).1 = m.cache.entries.pairs.countP (fun p => !p.2.isFresh m.now lifetime) ∧
      (m.cache.purge m.now).1 + (m.cache.purge m.now).2.size = m.cache.size

/-- A cache tells what its history says. -/
theorem tellsTime [EquivBEq κ] (lifetime : Duration) (start : Instant) (history : List (Deed κ ν)) :
    TellsTime lifetime start history where
  value _ _ := value?_after_eq_some_iff
  entry _ _ := stamped?_after_eq_some_iff
  reading _ hr later k := value?_reading hr later history k
  held := ⟨(refines_after lifetime start history).distinct, fun _ => exists_stands_of_mem⟩
  purge := by
    have h := purge_eq (after lifetime start history).cache (after lifetime start history).now
    rwa [lifetime_after] at h

/-- What lives for five nanoseconds is read after four of them, a look before or not, and is what a
purge counts after another. -/
theorem tellsTime_string :
    let written : List (Deed String Nat) := [.insert "k" 1]
    let late := after ⟨5⟩ ⟨0⟩ (.wait ⟨1⟩ :: .wait ⟨4⟩ :: written)
    (after ⟨5⟩ ⟨0⟩ (.wait ⟨4⟩ :: written)).value? "k" = some 1 ∧
      (after ⟨5⟩ ⟨0⟩ (.wait ⟨4⟩ :: .look "k" :: written)).value? "k" = some 1 ∧
      (late.cache.purge late.now).1 = 1 := by
  intro written late
  have hread : (after ⟨5⟩ ⟨0⟩ (.wait ⟨4⟩ :: written)).value? "k" = some 1 :=
    ((tellsTime ⟨5⟩ ⟨0⟩ _).value "k" 1).mpr
      ⟨[.wait ⟨4⟩], [], ⟨⟨"k", rfl, rfl⟩, by simp [Deed.ends]⟩, by decide⟩
  refine ⟨hread, ?_, ?_⟩
  · exact ((tellsTime ⟨5⟩ ⟨0⟩ written).reading (.look "k") rfl [.wait ⟨4⟩] "k").trans hread
  · exact ((tellsTime ⟨5⟩ ⟨0⟩ _).purge).1.trans (by decide)

end Timed.Cache
end LanguageServer
