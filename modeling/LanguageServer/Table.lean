/-! Finite maps as lists of pairs in the order of insertion. -/
namespace LanguageServer

/-- Keys and what each stands for. Keys are compared with `==`, and the first pair of a key
counts. -/
structure Table (κ ν : Type) where
  pairs : List (κ × ν)
  deriving Inhabited

namespace Table

variable {κ ν : Type}

def empty : Table κ ν := ⟨[]⟩

def size (t : Table κ ν) : Nat := t.pairs.length

def isEmpty (t : Table κ ν) : Bool := t.pairs.isEmpty

def keys (t : Table κ ν) : List κ := t.pairs.map (·.1)

variable [BEq κ]

/-- What a key stands for. -/
def find? (t : Table κ ν) (k : κ) : Option ν := (t.pairs.find? fun p => p.1 == k).map (·.2)

def contains (t : Table κ ν) (k : κ) : Bool := t.pairs.any fun p => p.1 == k

/-- Gives a key a value. A key that is there already stays where and as it is. -/
def insert (t : Table κ ν) (k : κ) (v : ν) : Table κ ν := ⟨go t.pairs⟩
where
  go : List (κ × ν) → List (κ × ν)
    | [] => [(k, v)]
    | p :: rest => if p.1 == k then (p.1, v) :: rest else p :: go rest

def erase (t : Table κ ν) (k : κ) : Table κ ν := ⟨t.pairs.filter fun p => !(p.1 == k)⟩

omit [BEq κ] in
def filter (t : Table κ ν) (p : κ → ν → Bool) : Table κ ν := ⟨t.pairs.filter fun x => p x.1 x.2⟩

@[simp] theorem find?_empty (k : κ) : (empty : Table κ ν).find? k = none := rfl

/-- An insertion is seen under its key alone. -/
theorem find?_insert [EquivBEq κ] (t : Table κ ν) (k j : κ) (v : ν) :
    (t.insert k v).find? j = if k == j then some v else t.find? j := by
  have go (pairs : List (κ × ν)) : ((insert.go k v pairs).find? fun p => p.1 == j).map (·.2) =
      if k == j then some v else (pairs.find? fun p => p.1 == j).map (·.2) := by
    induction pairs with
    | nil => by_cases h : k == j <;> simp [insert.go, h]
    | cons p rest ih =>
      by_cases hp : p.1 == k
      · simp only [insert.go, hp, if_true, List.find?_cons, BEq.congr_left hp]
        by_cases h : k == j <;> simp [h]
      · by_cases h : p.1 == j
        · have hk : (k == j) = false :=
            Bool.eq_false_iff.2 fun hk => hp (BEq.trans h (BEq.symm hk))
          simp [insert.go, hp, h, hk]
        · simpa [insert.go, hp, h] using ih
  exact go t.pairs

/-- What is erased is found no more, and nothing else is lost. -/
theorem find?_erase [EquivBEq κ] (t : Table κ ν) (k j : κ) :
    (t.erase k).find? j = if k == j then none else t.find? j := by
  have go (pairs : List (κ × ν)) :
      ((pairs.filter fun p => !(p.1 == k)).find? fun p => p.1 == j).map (·.2) =
        if k == j then none else (pairs.find? fun p => p.1 == j).map (·.2) := by
    induction pairs with
    | nil => simp
    | cons p rest ih =>
      by_cases hp : p.1 == k
      · rw [List.filter_cons_of_neg (by simp [hp]), ih]
        by_cases h : k == j <;> simp [h, BEq.congr_left hp]
      · rw [List.filter_cons_of_pos (by simp [hp])]
        by_cases h : p.1 == j
        · have hk : (k == j) = false :=
            Bool.eq_false_iff.2 fun hk => hp (BEq.trans h (BEq.symm hk))
          simp [h, hk]
        · simpa [h] using ih
  exact go t.pairs

theorem contains_eq_isSome_find? (t : Table κ ν) (k : κ) : t.contains k = (t.find? k).isSome := by
  rw [Bool.eq_iff_iff]
  simp [contains, find?, List.find?_isSome]

theorem mem_of_find? [LawfulBEq κ] {t : Table κ ν} {k : κ} {v : ν} (h : t.find? k = some v) :
    (k, v) ∈ t.pairs := by
  obtain ⟨p, hp, rfl⟩ := Option.map_eq_some_iff.mp h
  obtain rfl : p.1 = k := by simpa using List.find?_some hp
  exact List.mem_of_find?_eq_some hp

theorem mem_insert [LawfulBEq κ] {t : Table κ ν} {k : κ} {v : ν} {p : κ × ν}
    (h : p ∈ (t.insert k v).pairs) : p ∈ t.pairs ∨ p = (k, v) := by
  have go (pairs : List (κ × ν)) (h : p ∈ insert.go k v pairs) : p ∈ pairs ∨ p = (k, v) := by
    induction pairs with
    | nil => exact .inr (List.mem_singleton.mp h)
    | cons q rest ih =>
      by_cases hq : q.1 == k
      · rw [insert.go, if_pos hq, eq_of_beq hq, List.mem_cons] at h
        exact h.symm.imp_left (List.mem_cons_of_mem q)
      · rw [insert.go, if_neg hq, List.mem_cons] at h
        obtain rfl | h := h
        · exact .inl List.mem_cons_self
        · exact (ih h).imp_left (List.mem_cons_of_mem q)
  exact go t.pairs h

theorem mem_keys_insert [LawfulBEq κ] {t : Table κ ν} {k j : κ} {v : ν} :
    j ∈ (t.insert k v).keys ↔ j = k ∨ j ∈ t.keys := by
  have go (pairs : List (κ × ν)) :
      j ∈ (insert.go k v pairs).map (·.1) ↔ j = k ∨ j ∈ pairs.map (·.1) := by
    induction pairs with
    | nil => simp [insert.go]
    | cons p rest ih =>
      by_cases hp : p.1 == k
      · simp [insert.go, eq_of_beq hp]
      · simp only [insert.go, if_neg hp, List.map_cons, List.mem_cons, ih]
        exact or_left_comm
  exact go t.pairs

theorem nodup_keys_insert [LawfulBEq κ] {t : Table κ ν} {k : κ} {v : ν} (h : t.keys.Nodup) :
    (t.insert k v).keys.Nodup := by
  have go (pairs : List (κ × ν)) (h : (pairs.map (·.1)).Nodup) :
      ((insert.go k v pairs).map (·.1)).Nodup := by
    induction pairs with
    | nil => simp [insert.go]
    | cons p rest ih =>
      by_cases hp : p.1 == k
      · simpa [insert.go, hp] using h
      · obtain ⟨hfirst, hrest⟩ := List.nodup_cons.mp h
        rw [insert.go, if_neg hp]
        refine List.nodup_cons.mpr ⟨fun hmem => ?_, ih hrest⟩
        obtain heq | hmem := (mem_keys_insert (t := ⟨rest⟩)).mp hmem
        · simp [heq] at hp
        · exact hfirst hmem
  exact go t.pairs h

theorem nodup_keys_erase {t : Table κ ν} {k : κ} (h : t.keys.Nodup) : (t.erase k).keys.Nodup :=
  h.sublist (List.filter_sublist.map _)

/-- Of two values for one key the later counts. -/
theorem insert_insert [LawfulBEq κ] (t : Table κ ν) (k : κ) (v w : ν) :
    (t.insert k v).insert k w = t.insert k w := by
  have go (pairs : List (κ × ν)) : insert.go k w (insert.go k v pairs) = insert.go k w pairs := by
    induction pairs with
    | nil => simp [insert.go]
    | cons p rest ih => by_cases hp : p.1 == k <;> simp [insert.go, hp, ih]
  exact congrArg Table.mk (go t.pairs)

theorem find?_eq_none_iff {t : Table κ ν} {k : κ} :
    t.find? k = none ↔ ∀ p ∈ t.pairs, (p.1 == k) = false := by
  simp [find?]

/-- A new key comes last. -/
theorem pairs_insert {t : Table κ ν} {k : κ} (h : t.find? k = none) (v : ν) :
    (t.insert k v).pairs = t.pairs ++ [(k, v)] := by
  have go (pairs : List (κ × ν)) (h : ∀ p ∈ pairs, (p.1 == k) = false) :
      insert.go k v pairs = pairs ++ [(k, v)] := by
    induction pairs with
    | nil => rfl
    | cons p rest ih =>
      have hp : (p.1 == k) = false := h p List.mem_cons_self
      rw [insert.go, if_neg (by simp [hp]), ih fun q hq => h q (List.mem_cons_of_mem p hq)]
      rfl
  exact go t.pairs (find?_eq_none_iff.mp h)

/-- Where no key is there twice, a key stands for what it is paired with. -/
theorem find?_eq_some_iff [LawfulBEq κ] {t : Table κ ν} (ht : t.keys.Nodup) {k : κ} {v : ν} :
    t.find? k = some v ↔ (k, v) ∈ t.pairs := by
  have go (pairs : List (κ × ν)) (hpairs : (pairs.map (·.1)).Nodup) (h : (k, v) ∈ pairs) :
      (pairs.find? fun p => p.1 == k).map (·.2) = some v := by
    induction pairs with
    | nil => cases h
    | cons p rest ih =>
      obtain ⟨hp, hrest⟩ := List.nodup_cons.mp hpairs
      obtain rfl | h := List.mem_cons.mp h
      · simp
      · have hne : (p.1 == k) = false := by
          rw [beq_eq_false_iff_ne]
          rintro rfl
          exact hp (List.mem_map.mpr ⟨_, h, rfl⟩)
        rw [List.find?_cons, hne]
        exact ih hrest h
  exact ⟨mem_of_find?, go t.pairs ht⟩

theorem mem_erase {t : Table κ ν} {k : κ} {p : κ × ν} :
    p ∈ (t.erase k).pairs ↔ p ∈ t.pairs ∧ (p.1 == k) = false := by
  simp [erase]

end Table
end LanguageServer
