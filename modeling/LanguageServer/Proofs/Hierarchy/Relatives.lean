import LanguageServer.Proofs.Hierarchy.Heirs

/-! Whether an item is listed as a relative of its own. Nothing is among its own heirs, and no class or
module among its own parents. A program is listed as its own parent where a target that it inherits
leads back to its file. -/
namespace LanguageServer

namespace HierarchyItem

/-- Two items of one kind and name at one place. -/
def Coincides (i j : HierarchyItem) : Prop :=
  i.url = j.url ∧ i.selection = j.selection ∧ i.kind = j.kind ∧ i.name = j.name

/-- What is shown as a program is a document as a whole. -/
theorem program_of_url {i : HierarchyItem} {u v : Url} (hi : i = program u) (hv : i.url = v) :
    i = program v := by
  subst hv
  rw [hi]
  rfl

end HierarchyItem

namespace Knowledge

variable {k : Knowledge} {limit : Nat} {item i j : HierarchyItem} {u : Url} {a : Analysis}
  {target target' : String} {items rest : List HierarchyItem}

theorem nodup_addItem (h : items.Nodup) (i : HierarchyItem) : (addItem items i).Nodup := by
  unfold addItem
  split
  · exact h
  · next hnew =>
    refine List.nodup_append.mpr ⟨h, List.pairwise_singleton _ i, fun x hx y hy hxy => hnew ?_⟩
    rw [List.contains_iff_mem, ← List.mem_singleton.mp hy, ← hxy]
    exact hx

/-- Nothing is collected twice. -/
theorem nodup_collectItems (rest : List HierarchyItem) (h : items.Nodup) :
    (collectItems limit rest items).Nodup := by
  induction rest generalizing items with
  | nil => exact h
  | cons i rest ih =>
    rw [collectItems]
    split
    · exact nodup_addItem h i
    · exact ih (nodup_addItem h i)

section Stages

/-- A class or module of the item's own file never stands where the item does. -/
theorem of_sibling? (h : sibling? target item a = some i) :
    i.url = item.url ∧ i.selection ≠ item.selection ∧ i.name = className target ∧ i.kind ≠ .program := by
  obtain ⟨s, hs, hi⟩ := Option.bind_eq_some_iff.mp h
  obtain ⟨hclass, hapart⟩ := Option.filter_eq_some_iff.mp hs
  obtain ⟨hname, hurl, -, hselection⟩ := HierarchyItem.of_ofSymbol? hi
  refine ⟨hurl, hselection ▸ of_decide_eq_true hapart, ?_, HierarchyItem.kind_of_ofSymbol? hi⟩
  exact hname.trans (class?_eq_some hclass).2.2

/-- A class or module of another document stands in that document. -/
theorem of_elsewhere? (h : k.elsewhere? target u = some i) :
    i.url ≠ u ∧ i.name = className target ∧ i.kind ≠ .program := by
  obtain ⟨d, hd, hi⟩ := List.exists_of_findSome?_eq_some h
  obtain ⟨s, hs, hi⟩ := Option.bind_eq_some_iff.mp hi
  obtain ⟨hname, hurl, -⟩ := HierarchyItem.of_ofSymbol? hi
  refine ⟨hurl ▸ of_decide_eq_true (List.mem_filter.mp hd).2, ?_, HierarchyItem.kind_of_ofSymbol? hi⟩
  exact hname.trans (class?_eq_some hs).2.2

/-- A file of the workspace is looked for only among those that have no analysis. -/
def unopened? (k : Knowledge) (target : String) : Option HierarchyItem :=
  k.workspace.bind fun files =>
    (ModulePath.find? target (files.filter fun u => !k.urls.contains u)).map HierarchyItem.program

theorem parent?_eq : k.parent? target item a = (sibling? target item a).or
    ((k.filed? target item.url).or ((k.elsewhere? target item.url).or
      ((k.document? target).or (k.unopened? target)))) := rfl

/-- A target means a program, or a class or module by its name. -/
theorem kind_or_name_of_parent? (h : k.parent? target item a = some i) :
    i.kind = .program ∧ i = HierarchyItem.program i.url ∨
      i.kind ≠ .program ∧ i.name = className target ∧
        (i.url = item.url ∧ sibling? target item a = some i ∨
          i.url ≠ item.url ∧ k.elsewhere? target item.url = some i) := by
  have hprogram {v : Option Url} (hv : v.map HierarchyItem.program = some i) :
      i.kind = .program ∧ i = HierarchyItem.program i.url := by
    obtain ⟨v, -, rfl⟩ := Option.map_eq_some_iff.mp hv
    exact ⟨rfl, rfl⟩
  simp only [parent?_eq, Option.or_eq_some_iff] at h
  obtain h | ⟨-, h | ⟨-, h | ⟨-, h | ⟨-, h⟩⟩⟩⟩ := h
  · obtain ⟨hurl, -, hname, hkind⟩ := of_sibling? h
    exact .inr ⟨hkind, hname, .inl ⟨hurl, h⟩⟩
  · exact .inl (hprogram h)
  · obtain ⟨hurl, hname, hkind⟩ := of_elsewhere? h
    exact .inr ⟨hkind, hname, .inr ⟨hurl, h⟩⟩
  · exact .inl (hprogram h)
  · obtain ⟨files, -, h⟩ := Option.bind_eq_some_iff.mp h
    exact .inl (hprogram h)

/-- Parents that coincide are one item. -/
theorem eq_of_coincides (hi : k.parent? target item a = some i) (hj : k.parent? target' item a = some j)
    (h : i.Coincides j) : i = j := by
  obtain ⟨hurl, -, hkind, hname⟩ := h
  obtain ⟨hi, hiprogram⟩ | ⟨hi, hiname, hiplace⟩ := kind_or_name_of_parent? hi
  · obtain ⟨-, hjprogram⟩ | ⟨hj, -⟩ := kind_or_name_of_parent? hj
    · rw [hiprogram, hjprogram, hurl]
    · exact absurd (hkind.symm.trans hi) hj
  · obtain ⟨hj, -⟩ | ⟨-, hjname, hjplace⟩ := kind_or_name_of_parent? hj
    · exact absurd (hkind.trans hj) hi
    · have hsame : className target = className target' := hiname.symm.trans (hname.trans hjname)
      obtain ⟨hown, hi⟩ | ⟨hother, hi⟩ := hiplace <;> obtain ⟨hown', hj⟩ | ⟨hother', hj⟩ := hjplace
      · rw [sibling?, hsame] at hi
        exact Option.some.inj (hi.symm.trans hj)
      · exact absurd (hurl.symm.trans hown) hother'
      · exact absurd (hurl.trans hown') hother
      · rw [elsewhere?, hsame] at hi
        exact Option.some.inj (hi.symm.trans hj)

end Stages

/-- A target leads a program back to its own file: no class or module of its name is found there, and
the file is what the search for imports finds, or the first document that the target names where
neither that search nor a class of another document comes first. -/
structure LeadsBack (k : Knowledge) (target : String) (item : HierarchyItem) (a : Analysis) : Prop where
  sibling : sibling? target item a = none
  found : k.filed? target item.url = some (HierarchyItem.program item.url) ∨
    k.filed? target item.url = none ∧ k.elsewhere? target item.url = none ∧
      k.document? target = some (HierarchyItem.program item.url)

/-- What coincides with its heir is a program that a target leads back to. -/
theorem leadsBack_of_parent? (hu : item.url ∈ k.urls) (h : k.parent? target item a = some i)
    (hsame : i.Coincides item) :
    i = HierarchyItem.program item.url ∧ k.LeadsBack target item a := by
  obtain ⟨hurl, hselection, -⟩ := hsame
  simp only [parent?_eq, Option.or_eq_some_iff] at h
  obtain h | ⟨hsibling, h | ⟨hfiled, h | ⟨helsewhere, h | ⟨-, h⟩⟩⟩⟩ := h
  · exact absurd hselection (of_sibling? h).2.1
  · obtain ⟨v, -, hv⟩ := Option.map_eq_some_iff.mp h
    have hi := HierarchyItem.program_of_url hv.symm hurl
    exact ⟨hi, hsibling, .inl (hi ▸ h)⟩
  · exact absurd hurl (of_elsewhere? h).1
  · obtain ⟨v, -, hv⟩ := Option.map_eq_some_iff.mp h
    have hi := HierarchyItem.program_of_url hv.symm hurl
    exact ⟨hi, hsibling, .inr ⟨hfiled, helsewhere, hi ▸ h⟩⟩
  · -- the file itself has an analysis
    obtain ⟨files, -, h⟩ := Option.bind_eq_some_iff.mp h
    obtain ⟨v, hv, rfl⟩ := Option.map_eq_some_iff.mp h
    obtain rfl : v = item.url := hurl
    have hunopened := (List.mem_filter.mp (List.mem_of_find?_eq_some hv)).2
    simp [hu] at hunopened

theorem parent?_of_leadsBack (h : k.LeadsBack target item a) :
    k.parent? target item a = some (HierarchyItem.program item.url) := by
  rw [parent?_eq, h.sibling, Option.none_or]
  obtain hfiled | ⟨hfiled, helsewhere, hdocument⟩ := h.found
  · rw [hfiled, Option.some_or]
  · rw [hfiled, helsewhere, hdocument, Option.none_or, Option.none_or, Option.some_or]

theorem mem_urls_of_latest? (h : k.latest? u = some a) : u ∈ k.urls := by
  obtain ⟨before, later, heq, -⟩ := List.lookup_eq_some_iff.mp h
  exact List.mem_map.mpr ⟨(u, a), by simp [heq], rfl⟩

/-- A parent is meant by a target that the item inherits. -/
theorem exists_parent?_of_mem (h : i ∈ k.supertypes limit item) :
    ∃ a, k.latest? item.url = some a ∧ ∃ target ∈ inheritedBy a item, k.parent? target item a = some i := by
  unfold supertypes at h
  cases ha : k.latest? item.url with
  | none => simp [ha] at h
  | some a =>
    rw [ha] at h
    have hi := (mem_of_mem_collectItems h).resolve_right List.not_mem_nil
    exact ⟨a, rfl, List.mem_filterMap.mp hi⟩

/-- How items stand to themselves among their relatives. -/
structure Kinship (k : Knowledge) (limit : Nat) (item : HierarchyItem) : Prop where
  /-- No heir coincides with the item, whatever kind it is shown as. -/
  heirs : ∀ i ∈ k.subtypes limit item,
    ¬ (i.url = item.url ∧ i.selection = item.selection ∧ i.name = item.name)
  heirs_nodup : (k.subtypes limit item).Nodup
  parents_nodup : (k.supertypes limit item).Nodup
  parents_apart : ∀ i ∈ k.supertypes limit item, ∀ j ∈ k.supertypes limit item, i.Coincides j → i = j
  /-- A parent that coincides with the item is the program that the item stands for. -/
  parents : ∀ i ∈ k.supertypes limit item, i.Coincides item →
    item.kind = .program ∧ i = HierarchyItem.program item.url ∧
      ∃ a, k.latest? item.url = some a ∧ ∃ target ∈ inheritedBy a item,
        k.LeadsBack target item a
  /-- A program is listed as its own parent where a target leads back to it. -/
  back : ∀ a, k.latest? item.url = some a → ∀ target ∈ inheritedBy a item,
    k.LeadsBack target item a → (k.supertypes limit item).length < limit →
    HierarchyItem.program item.url ∈ k.supertypes limit item

theorem kinship (k : Knowledge) (limit : Nat) (item : HierarchyItem) : k.Kinship limit item where
  heirs i hi := by
    have hi := (mem_of_mem_collectItems hi).resolve_right List.not_mem_nil
    obtain ⟨d, -, hi⟩ := List.mem_flatMap.mp hi
    have hapart := (List.mem_filter.mp hi).2
    rintro ⟨hurl, hselection, hname⟩
    simp [hurl, hselection, hname] at hapart
  heirs_nodup := nodup_collectItems _ .nil
  parents_nodup := by
    unfold supertypes
    split
    · exact nodup_collectItems _ .nil
    · exact .nil
  parents_apart i hi j hj h := by
    obtain ⟨a, ha, target, -, hi⟩ := exists_parent?_of_mem hi
    obtain ⟨b, hb, target', -, hj⟩ := exists_parent?_of_mem hj
    obtain rfl := Option.some.inj (ha.symm.trans hb)
    exact eq_of_coincides hi hj h
  parents i hi h := by
    obtain ⟨a, ha, target, htarget, hi⟩ := exists_parent?_of_mem hi
    obtain ⟨rfl, hback⟩ := leadsBack_of_parent? (mem_urls_of_latest? ha) hi h
    exact ⟨h.2.2.1.symm, rfl, a, ha, target, htarget, hback⟩
  back a ha target htarget hback hroom :=
    mem_supertypes ha hroom htarget (parent?_of_leadsBack hback)

section Mirror

/-- A document that inherits itself at its top. -/
def mirror : Knowledge where
  analyses := [
    (⟨"file", some "", "/a.pike", none, none⟩, {
      symbols := [.leaf ⟨"a.pike", ⟨⟨0, 0⟩, ⟨0, 17⟩⟩, ⟨⟨0, 8⟩, ⟨0, 16⟩⟩⟩ (.inheritance "a.pike")]
      diagnostics := []
      index := [] })]
  imports _ := none
  inheritedFile _ _ := none
  workspace := none

def mirrorProgram : HierarchyItem := .program ⟨"file", some "", "/a.pike", none, none⟩

/-- The document is its own parent, and not its own heir. -/
theorem kinship_mirror : mirrorProgram ∈ mirror.supertypes 10 mirrorProgram ∧
    mirrorProgram ∉ mirror.subtypes 10 mirrorProgram := by
  refine ⟨?_, fun h => (kinship mirror 10 mirrorProgram).heirs _ h ⟨rfl, rfl, rfl⟩⟩
  refine (kinship mirror 10 mirrorProgram).back _ rfl "a.pike" ?_ ?_ (by decide +kernel)
  · exact List.mem_singleton.mpr rfl
  · exact ⟨by decide +kernel, .inr ⟨rfl, rfl, by decide +kernel⟩⟩

end Mirror

end Knowledge
end LanguageServer
