import LanguageServer.Workspace

/-! What a workspace holds for its roots, and what it publishes: every path of some listings once, in
order. -/
namespace LanguageServer

namespace Path

theorem same_iff {p q : Path} : p.same q ↔ p.components = q.components := by simp [same]

theorem Component.key_injective {a b : Component} (h : a.key = b.key) : a = b := by
  cases a <;> cases b <;> simp_all [key]

theorem Component.le_iff {a b : Component} : a.le b ↔
    a.key.1 < b.key.1 ∨ a.key.1 = b.key.1 ∧ a.key.2 ≤ b.key.2 := by
  simp only [le, Bool.or_eq_true, Bool.and_eq_true, Bool.not_eq_true', decide_eq_true_eq,
    decide_eq_false_iff_not, String.not_lt]

theorem Component.le_total (a b : Component) : a.le b ∨ b.le a := by
  rw [le_iff, le_iff]
  rcases Nat.lt_trichotomy a.key.1 b.key.1 with h | h | h
  · exact .inl (.inl h)
  · exact (String.le_total a.key.2 b.key.2).imp (fun hs => .inr ⟨h, hs⟩) fun hs => .inr ⟨h.symm, hs⟩
  · exact .inr (.inl h)

theorem Component.le_trans {a b c : Component} (hab : a.le b) (hbc : b.le c) : a.le c := by
  rw [le_iff] at *
  rcases hab with hab | ⟨hab, hs⟩ <;> rcases hbc with hbc | ⟨hbc, hs'⟩
  · exact .inl (Nat.lt_trans hab hbc)
  · exact .inl (hbc ▸ hab)
  · exact .inl (hab ▸ hbc)
  · exact .inr ⟨hab.trans hbc, String.le_trans hs hs'⟩

theorem Component.le_antisymm {a b : Component} (hab : a.le b) (hba : b.le a) : a = b := by
  rw [le_iff] at *
  have hfirst : a.key.1 = b.key.1 := by omega
  refine key_injective (Prod.ext hfirst (String.le_antisymm ?_ ?_))
  · exact (hab.resolve_left (by omega)).2
  · exact (hba.resolve_left (by omega)).2

section Order

variable {as bs cs : List Component}

theorem le_go_total (as bs : List Component) : le.go as bs ∨ le.go bs as := by
  induction as, bs using le.go.induct with
  | case1 bs => exact .inl (by simp [le.go])
  | case2 a as => exact .inr (by simp [le.go])
  | case3 as a bs ih => simpa [le.go] using ih
  | case4 a as b bs hab =>
    simpa [le.go, hab, Ne.symm hab] using Component.le_total a b

theorem le_go_antisymm (hab : le.go as bs) (hba : le.go bs as) : as = bs := by
  induction as, bs using le.go.induct with
  | case1 bs => cases bs <;> simp_all [le.go]
  | case2 a as => simp [le.go] at hab
  | case3 as a bs ih => rw [ih (by simpa [le.go] using hab) (by simpa [le.go] using hba)]
  | case4 a as b bs hne =>
    rw [le.go, if_neg hne] at hab
    rw [le.go, if_neg (Ne.symm hne)] at hba
    exact absurd (Component.le_antisymm hab hba) hne

theorem le_go_trans (hab : le.go as bs) (hbc : le.go bs cs) : le.go as cs := by
  induction as, bs using le.go.induct generalizing cs with
  | case1 bs => simp [le.go]
  | case2 a as => simp [le.go] at hab
  | case3 as a bs ih =>
    cases cs with
    | nil => simp [le.go] at hbc
    | cons c cs =>
      rw [le.go, if_pos rfl] at hab
      rw [le.go] at hbc ⊢
      by_cases h : a = c
      · rw [if_pos h] at *
        exact ih hab hbc
      · rw [if_neg h] at *
        exact hbc
  | case4 a as b bs hne =>
    rw [le.go, if_neg hne] at hab
    cases cs with
    | nil => simp [le.go] at hbc
    | cons c cs =>
      rw [le.go]
      by_cases h : b = c
      · subst h
        rwa [if_neg hne]
      · rw [le.go, if_neg h] at hbc
        have hac : a ≠ c := by
          rintro rfl
          exact hne (Component.le_antisymm hab hbc)
        rw [if_neg hac]
        exact Component.le_trans hab hbc

end Order

variable {p q r : Path}

theorem le_total (p q : Path) : p.le q || q.le p := (Bool.or_eq_true _ _).mpr (le_go_total _ _)

theorem le_trans (hpq : p.le q) (hqr : q.le r) : p.le r := le_go_trans hpq hqr

theorem same_of_le (hpq : p.le q) (hqp : q.le p) : p.same q := same_iff.mpr (le_go_antisymm hpq hqp)

end Path

/-- A filter that treats all spellings of a key alike keeps what it stands for, or drops it. -/
theorem Table.find?_filter {κ ν : Type} [BEq κ] {t : Table κ ν} {p : κ → ν → Bool} {k : κ} {b : Bool}
    (h : ∀ j v, j == k → p j v = b) : (t.filter p).find? k = if b then t.find? k else none := by
  have hsame (x : κ × ν) : decide (p x.1 x.2 = true ∧ (x.1 == k) = true) = (b && x.1 == k) := by
    cases hx : x.1 == k with
    | true => simp [h x.1 x.2 hx]
    | false => simp
  simp only [find?, filter, List.find?_filter, hsame]
  cases b <;> simp

namespace Workspace

/-- Every place that some listings name, once and in order. -/
structure IsUnion (listings : List (List Path)) (files : List Path) : Prop where
  sorted : files.Pairwise fun p q => p.le q
  distinct : files.Pairwise fun p q => ¬p.same q
  listed : ∀ p ∈ files, ∃ l ∈ listings, p ∈ l
  covers : ∀ l ∈ listings, ∀ p ∈ l, ∃ q ∈ files, q.same p

theorem dropRepeats_cons (p : Path) (rest : List Path) : dropRepeats (p :: rest) =
    match dropRepeats rest with
    | [] => [p]
    | q :: others => if p.same q then p :: others else p :: q :: others := rfl

theorem dropRepeats_sublist (files : List Path) : (dropRepeats files).Sublist files := by
  induction files with
  | nil => exact .slnil
  | cons p rest ih =>
    rw [dropRepeats_cons]
    cases hrest : dropRepeats rest with
    | nil => exact List.cons_sublist_cons.mpr (List.nil_sublist rest)
    | cons q others =>
      rw [hrest] at ih
      dsimp only
      split
      · exact List.cons_sublist_cons.mpr ((List.sublist_cons_self q others).trans ih)
      · exact List.cons_sublist_cons.mpr ih

/-- No place is lost. -/
theorem dropRepeats_covers (files : List Path) : ∀ p ∈ files, ∃ q ∈ dropRepeats files, q.same p := by
  induction files with
  | nil => exact nofun
  | cons p rest ih =>
    intro r hr
    rw [dropRepeats_cons]
    obtain rfl | hr := List.mem_cons.mp hr
    · have hsame : r.same r := Path.same_iff.mpr rfl
      cases dropRepeats rest with
      | nil => exact ⟨r, by simp, hsame⟩
      | cons q others => exact ⟨r, by dsimp only; split <;> simp, hsame⟩
    · obtain ⟨q, hq, hqr⟩ := ih r hr
      cases hrest : dropRepeats rest with
      | nil => simp [hrest] at hq
      | cons x others =>
        rw [hrest] at hq
        dsimp only
        split
        · next hpx =>
          obtain rfl | hq := List.mem_cons.mp hq
          · exact ⟨p, List.mem_cons_self,
              Path.same_iff.mpr ((Path.same_iff.mp hpx).trans (Path.same_iff.mp hqr))⟩
          · exact ⟨q, List.mem_cons_of_mem p hq, hqr⟩
        · exact ⟨q, List.mem_cons_of_mem p hq, hqr⟩

/-- In a sorted list every place is named once when repeats are dropped. -/
theorem pairwise_dropRepeats {files : List Path} (h : files.Pairwise fun p q => p.le q) :
    (dropRepeats files).Pairwise fun p q => ¬p.same q := by
  induction files with
  | nil => exact .nil
  | cons p rest ih =>
    obtain ⟨hp, hrest⟩ := List.pairwise_cons.mp h
    have hsorted := hrest.sublist (dropRepeats_sublist rest)
    have hle (q) (hq : q ∈ dropRepeats rest) : p.le q := hp q ((dropRepeats_sublist rest).subset hq)
    rw [dropRepeats_cons]
    cases hdrop : dropRepeats rest with
    | nil => exact List.pairwise_singleton _ _
    | cons q others =>
      have hdistinct := ih hrest
      rw [hdrop] at hdistinct hsorted hle
      obtain ⟨hq, hothers⟩ := List.pairwise_cons.mp hdistinct
      dsimp only
      split
      · next hpq =>
        refine List.pairwise_cons.mpr ⟨fun r hr hpr => hq r hr ?_, hothers⟩
        exact Path.same_iff.mpr ((Path.same_iff.mp hpq).symm.trans (Path.same_iff.mp hpr))
      · next hpq =>
        -- what lies between two names of one place names it too
        refine List.pairwise_cons.mpr ⟨fun r hr hpr => ?_, hdistinct⟩
        obtain rfl | hr := List.mem_cons.mp hr
        · exact hpq hpr
        · have hqr : q.le r := (List.pairwise_cons.mp hsorted).1 r hr
          have hqp : q.le p := by rwa [Path.le, Path.same_iff.mp hpr]
          exact hpq (Path.same_of_le (hle q List.mem_cons_self) hqp)

theorem files_publish (files : List Path) (w : Workspace) :
    (w.publish files).2.files = dropRepeats (files.mergeSort Path.le) := rfl

/-- What is published is the union of what was listed. -/
theorem isUnion_publish (listings : List (List Path)) (w : Workspace) :
    IsUnion listings (w.publish listings.flatten).2.files := by
  have hsorted : (listings.flatten.mergeSort Path.le).Pairwise fun p q => p.le q := by
    refine List.pairwise_mergeSort ?_ Path.le_total _
    exact fun _ _ _ => Path.le_trans
  have hmem (p : Path) : p ∈ listings.flatten.mergeSort Path.le ↔ p ∈ listings.flatten :=
    (List.mergeSort_perm _ _).mem_iff
  rw [files_publish]
  refine ⟨hsorted.sublist (dropRepeats_sublist _), pairwise_dropRepeats hsorted, fun p hp => ?_,
    fun l hl p hp => ?_⟩
  · exact List.mem_flatten.mp ((hmem p).mp ((dropRepeats_sublist _).subset hp))
  · exact dropRepeats_covers _ p ((hmem p).mpr (List.mem_flatten.mpr ⟨l, hl, hp⟩))

/-- What is held for a root, expired or not. -/
def held (w : Workspace) (root : Path) : Option (Timed.Stamped (List Path)) :=
  w.listings.entries.find? ⟨pattern, root⟩

instance : EquivBEq Timed.ListingKey where
  rfl {a} := by simp [BEq.beq, Path.same]
  symm {a b} h := by
    simp only [BEq.beq, Path.same, Bool.and_eq_true, decide_eq_true_eq] at *
    exact ⟨h.1.symm, h.2.symm⟩
  trans {a b c} h h' := by
    simp only [BEq.beq, Path.same, Bool.and_eq_true, decide_eq_true_eq] at *
    exact ⟨h.1.trans h'.1, h.2.trans h'.2⟩

theorem key_beq {root r : Path} :
    ((⟨pattern, root⟩ : Timed.ListingKey) == ⟨pattern, r⟩) = root.same r := by
  simp [BEq.beq]

variable {now : Instant} {root r : Path} {files : List Path} {w : Workspace}

theorem held_keep : (w.keep now root files).held r =
    if root.same r then some ⟨files, now⟩ else w.held r := by
  simp only [held, keep, Timed.Cache.insert, Table.find?_insert, key_beq]

theorem held_setRoots (roots : List Path) : (w.setRoots roots).held r = none := rfl

theorem held_publish : (w.publish files).2.held r = w.held r := rfl

/-- A look at what is held drops at most what has expired. -/
theorem held_listing {e : Timed.Stamped (List Path)} (h : (w.listing now root).2.held r = some e) :
    w.held r = some e := by
  simp only [listing, Timed.Cache.get, held, Timed.Cache.settle] at h
  split at h
  · split at h
    · exact h
    · rw [Table.find?_erase] at h
      split at h
      · cases h
      · exact h
  · exact h

theorem held_of_listing (h : (w.listing now root).1 = some files) :
    ∃ e, w.held root = some e ∧ e.value = files := by
  simp only [listing, Timed.Cache.get, Timed.Cache.find?, Timed.Cache.entry?, Option.map_eq_some_iff,
    Option.filter_eq_some_iff] at h
  obtain ⟨e, ⟨he, -⟩, rfl⟩ := h
  exact ⟨e, he, rfl⟩

theorem held_invalidate : (w.invalidate root).held r = if r.same root then none else w.held r := by
  have hspelling (k : Timed.ListingKey) (_ : Timed.Stamped (List Path)) (hk : k == ⟨pattern, r⟩) :
      (!k.directory.same root) = !r.same root := by
    simp only [BEq.beq, Bool.and_eq_true] at hk
    simp only [Path.same, Path.same_iff.mp hk.2]
  refine (Table.find?_filter hspelling).trans ?_
  cases r.same root <;> rfl

end Workspace
end LanguageServer
