import LanguageServer.Hierarchy.Inheritance
import LanguageServer.Proofs.Hierarchy.Gathering

/-! What inherits from an item and what an item inherits from. The first goes by names and the second
by what names mean, so they agree where everything that a name may stand for is the one item. -/
namespace LanguageServer

namespace Symbol

theorem inheritEdges_append (xs ys : List (Option Symbol × Symbol)) :
    inheritEdges (xs ++ ys) = inheritEdges xs ++ inheritEdges ys := by
  induction xs using inheritEdges.induct with
  | case1 => simp [inheritEdges]
  | case2 owner s rest target htarget ih =>
    rw [List.cons_append, inheritEdges, inheritEdges, htarget]
    simp only [ih, List.cons_append]
  | case3 owner s rest hnone next ih =>
    rw [List.cons_append, inheritEdges, inheritEdges, hnone]
    simp only [← List.append_assoc]
    simpa only [next, dite_eq_ite] using ih

/-- An inherit symbol stands at the top of a forest, directly in the class or module that it counts
for, or in something that is neither. -/
theorem mem_inheritEdges {forest : List Symbol} {outer owner : Option Symbol} {target : String}
    (h : (owner, target) ∈ inheritEdges (forest.map (outer, ·))) :
    (owner = outer ∧ ∃ c ∈ forest, c.inherited? = some target) ∨
      ∃ s ∈ walk forest, (s.isType → owner = some s) ∧ ∃ c ∈ s.children, c.inherited? = some target := by
  induction forest using forest_induction generalizing outer with
  | nil => simp [inheritEdges] at h
  | cons s rest children ih =>
    have hcons : inheritEdges ((s :: rest).map (outer, ·)) =
        inheritEdges [(outer, s)] ++ inheritEdges (rest.map (outer, ·)) :=
      inheritEdges_append [(outer, s)] (rest.map (outer, ·))
    rw [hcons, List.mem_append] at h
    rcases h with h | h
    · rw [inheritEdges] at h
      cases hs : s.inherited? with
      | some t =>
        simp only [hs, inheritEdges, List.mem_singleton, Prod.mk.injEq] at h
        obtain ⟨rfl, rfl⟩ := h
        exact .inl ⟨rfl, s, List.mem_cons_self, hs⟩
      | none =>
        simp only [hs, List.append_nil] at h
        rcases children h with ⟨rfl, c, hc, hct⟩ | ⟨t, ht, howner, hct⟩
        · refine .inr ⟨s, mem_walk_of_mem List.mem_cons_self, fun htype => ?_, c, hc, hct⟩
          rw [if_pos htype]
        · refine .inr ⟨t, mem_walk_cons.mpr (.inl ?_), howner, hct⟩
          exact walk_singleton s ▸ List.mem_cons_of_mem s ht
    · rcases ih h with ⟨rfl, c, hc, hct⟩ | ⟨t, ht, howner, hct⟩
      · exact .inl ⟨rfl, c, List.mem_cons_of_mem s hc, hct⟩
      · exact .inr ⟨t, mem_walk_cons.mpr (.inr ht), howner, hct⟩

end Symbol

/-- The inherit symbols of a document with what they count for. -/
def Analysis.edges (a : Analysis) : List (Option Symbol × String) :=
  Symbol.inheritEdges (a.symbols.map (none, ·))

namespace HierarchyItem

variable {u : Url} {s : Symbol} {i : HierarchyItem}

/-- No symbol is shown as a program. -/
theorem kind_of_ofSymbol? (h : ofSymbol? u s = some i) : i.kind ≠ .program := by
  unfold ofSymbol? at h
  split at h <;> cases h <;> nofun

end HierarchyItem

namespace Knowledge

variable {k : Knowledge} {limit : Nat} {item heir : HierarchyItem} {u : Url} {a : Analysis}
  {target : String}

section Collect

variable {i : HierarchyItem} {items rest : List HierarchyItem}

theorem mem_addItem {j : HierarchyItem} : j ∈ addItem items i ↔ j ∈ items ∨ j = i := by
  unfold addItem
  split
  · rename_i hmem
    rw [List.contains_iff_mem] at hmem
    exact ⟨.inl, fun h => h.elim id fun h => h ▸ hmem⟩
  · simp

theorem mem_of_mem_collectItems (h : i ∈ collectItems limit rest items) : i ∈ rest ∨ i ∈ items := by
  induction rest generalizing items with
  | nil => exact .inr h
  | cons j rest ih =>
    rw [collectItems] at h
    have hadded (hi : i ∈ addItem items j) : i ∈ j :: rest ∨ i ∈ items := by
      rcases mem_addItem.mp hi with hi | rfl
      · exact .inr hi
      · exact .inl List.mem_cons_self
    split at h
    · exact hadded h
    · exact (ih h).elim (fun hi => .inl (List.mem_cons_of_mem j hi)) hadded

/-- A list with room left has everything that was to be collected. -/
theorem mem_collectItems (hroom : (collectItems limit rest items).length < limit)
    (h : i ∈ rest ∨ i ∈ items) : i ∈ collectItems limit rest items := by
  induction rest generalizing items with
  | nil => exact h.resolve_left List.not_mem_nil
  | cons j rest ih =>
    rw [collectItems] at hroom ⊢
    split at hroom
    · omega
    · rename_i hmore
      rw [if_neg hmore]
      refine ih hroom ?_
      rw [mem_addItem]
      rcases h with h | h
      · exact (List.mem_cons.mp h).elim (fun h => .inr (.inr h)) .inl
      · exact .inr (.inl h)

end Collect

/-- What inherits from an item goes by names: an inherit symbol that counts for it names the item. -/
theorem exists_edge_of_subtypes (h : heir ∈ k.subtypes limit item) :
    ∃ u a owner target, (u, a) ∈ k.analyses ∧ (owner, target) ∈ a.edges ∧ names target item ∧
      ownerItem? u owner = some heir := by
  have hheir := (mem_of_mem_collectItems h).resolve_right List.not_mem_nil
  obtain ⟨⟨u, a⟩, hd, hheir⟩ := List.mem_flatMap.mp hheir
  obtain ⟨⟨owner, target⟩, hedge, howner⟩ := List.mem_filterMap.mp (List.mem_filter.mp hheir).1
  dsimp only at howner
  split at howner
  · exact ⟨u, a, owner, target, hd, hedge, ‹_›, howner⟩
  · cases howner

/-- What an item inherits from goes by meanings: a target that it declares means the other item. -/
theorem mem_supertypes (ha : k.latest? heir.url = some a)
    (hroom : (k.supertypes limit heir).length < limit) (htarget : target ∈ inheritedBy a heir)
    (hmeans : k.parent? target heir a = some item) : item ∈ k.supertypes limit heir := by
  unfold supertypes at hroom ⊢
  rw [ha] at hroom ⊢
  exact mem_collectItems hroom (.inl (List.mem_filterMap.mpr ⟨target, htarget, hmeans⟩))

/-- A class, module or program that can be inherited from: a document shows it, a class or module
under a name without dots. -/
def IsType (k : Knowledge) (item : HierarchyItem) : Prop :=
  (∃ d ∈ k.analyses, ∃ s ∈ d.2.walk, s.isType ∧ HierarchyItem.ofSymbol? d.1 s = some item ∧
    className item.name = item.name) ∨ ∃ u ∈ k.urls, item = HierarchyItem.program u

/-- All that a target may stand for in a document is one item: every class or module of its name, the
file that is found for it, and every document whose path it ends. -/
structure MeansOnly (k : Knowledge) (u : Url) (target : String) (item : HierarchyItem) : Prop where
  classes : ∀ d ∈ k.analyses, ∀ s ∈ d.2.walk, s.isType → s.name = className target →
    HierarchyItem.ofSymbol? d.1 s = some item
  file : ∀ v, (k.inheritedFile target u).bind Url.ofFilePath? = some v →
    HierarchyItem.program v = item
  documents : ∀ v ∈ k.urls, ModulePath.isMatch target v → HierarchyItem.program v = item

/-- What a class or module is found under is its name. -/
theorem class?_eq_some {name : String} {s : Symbol} (h : a.class? name = some s) :
    s ∈ a.walk ∧ s.isType ∧ s.name = name := by
  have hfound := List.find?_some h
  simp only [Bool.and_eq_true, decide_eq_true_eq] at hfound
  exact ⟨List.mem_of_find?_eq_some h, hfound⟩

theorem exists_class? {name : String} {s : Symbol} (hs : s ∈ a.walk) (htype : s.isType)
    (hname : s.name = name) : ∃ t, a.class? name = some t := by
  refine Option.isSome_iff_exists.mp (List.find?_isSome.mpr ⟨s, hs, ?_⟩)
  simp [htype, hname]

/-- A target that names a class or module without dots ends in its name. -/
theorem className_of_names (h : names target item) (hkind : item.kind ≠ .program)
    (hplain : className item.name = item.name) : className target = item.name := by
  unfold names at h
  split at h
  · rename_i hprogram
    exact absurd hprogram hkind
  · simp only [Bool.or_eq_true, decide_eq_true_eq] at h
    exact h.elim (fun h => h ▸ hplain) id

/-- Another class of the file of an item. -/
def sibling? (target : String) (item : HierarchyItem) (a : Analysis) : Option HierarchyItem :=
  ((a.class? (className target)).filter (·.selection ≠ item.selection)).bind
    (HierarchyItem.ofSymbol? item.url)

def filed? (k : Knowledge) (target : String) (u : Url) : Option HierarchyItem :=
  ((k.inheritedFile target u).bind Url.ofFilePath?).map HierarchyItem.program

def elsewhere? (k : Knowledge) (target : String) (u : Url) : Option HierarchyItem :=
  (k.others u).findSome? (classItem? (className target))

def document? (k : Knowledge) (target : String) : Option HierarchyItem :=
  (ModulePath.find? target k.urls).map HierarchyItem.program

/-- What a target means is found in stages, the first that finds something. -/
theorem parent?_eq_stages : ∃ unopened, k.parent? target item a = (sibling? target item a).or
    ((k.filed? target item.url).or ((k.elsewhere? target item.url).or
      ((k.document? target).or unopened))) := ⟨_, rfl⟩

/-- A stage that finds nothing else leaves the find to the next. -/
theorem or_eq_some {x y : Option HierarchyItem} (hx : ∀ i, x = some i → i = item)
    (hy : y = some item) : x.or y = some item := by
  cases x with
  | none => exact hy
  | some i => rw [Option.some_or, hx i rfl]

namespace MeansOnly

/-- A class or module of the name in any document is the item. -/
theorem of_class? (h : k.MeansOnly u target item) {d : Url × Analysis} (hd : d ∈ k.analyses) {s : Symbol}
    (hs : d.2.class? (className target) = some s) : HierarchyItem.ofSymbol? d.1 s = some item := by
  obtain ⟨hmem, htype, hname⟩ := class?_eq_some hs
  exact h.classes d hd s hmem htype hname

theorem of_sibling? (h : k.MeansOnly heir.url target item) (ha : (heir.url, a) ∈ k.analyses)
    {i : HierarchyItem} (hi : sibling? target heir a = some i) : i = item := by
  obtain ⟨s, hs, hi⟩ := Option.bind_eq_some_iff.mp hi
  exact Option.some.inj (hi.symm.trans (h.of_class? ha (Option.filter_eq_some_iff.mp hs).1))

theorem of_filed? (h : k.MeansOnly u target item) {i : HierarchyItem}
    (hi : k.filed? target u = some i) : i = item := by
  obtain ⟨v, hv, rfl⟩ := Option.map_eq_some_iff.mp hi
  exact h.file v hv

theorem of_elsewhere? (h : k.MeansOnly u target item) {i : HierarchyItem}
    (hi : k.elsewhere? target u = some i) : i = item := by
  obtain ⟨d, hd, hi⟩ := List.exists_of_findSome?_eq_some hi
  obtain ⟨s, hs, hi⟩ := Option.bind_eq_some_iff.mp hi
  exact Option.some.inj (hi.symm.trans (h.of_class? (List.mem_filter.mp hd).1 hs))

theorem of_document? (h : k.MeansOnly u target item) {i : HierarchyItem}
    (hi : k.document? target = some i) : i = item := by
  obtain ⟨v, hv, rfl⟩ := Option.map_eq_some_iff.mp hi
  exact h.documents v (List.mem_of_find?_eq_some hv) (List.find?_some hv)

/-- The item is found among the classes of its own file, unless it stands where the heir does. -/
theorem sibling?_eq (h : k.MeansOnly heir.url target item) (ha : (heir.url, a) ∈ k.analyses)
    {s : Symbol} (hs : s ∈ a.walk) (htype : s.isType) (hname : s.name = className target)
    (hapart : item.selection ≠ heir.selection) : sibling? target heir a = some item := by
  obtain ⟨t, ht⟩ := exists_class? hs htype hname
  have hitem := h.of_class? ha ht
  obtain ⟨-, -, -, hselection⟩ := HierarchyItem.of_ofSymbol? hitem
  refine Option.bind_eq_some_iff.mpr ⟨t, Option.filter_eq_some_iff.mpr ⟨ht, ?_⟩, hitem⟩
  rw [← hselection]
  exact decide_eq_true hapart

/-- The item is found among the classes of another document. -/
theorem elsewhere?_eq (h : k.MeansOnly u target item) {d : Url × Analysis} (hd : d ∈ k.analyses)
    (hother : d.1 ≠ u) {s : Symbol} (hs : s ∈ d.2.walk) (htype : s.isType)
    (hname : s.name = className target) : k.elsewhere? target u = some item := by
  obtain ⟨t, ht⟩ := exists_class? hs htype hname
  have hshown : classItem? (className target) d = some item :=
    Option.bind_eq_some_iff.mpr ⟨t, ht, h.of_class? hd ht⟩
  have hd' : d ∈ k.others u := List.mem_filter.mpr ⟨hd, decide_eq_true hother⟩
  obtain ⟨i, hi⟩ : ∃ i, k.elsewhere? target u = some i :=
    Option.isSome_iff_exists.mp (List.findSome?_isSome_iff.mpr ⟨d, hd', by rw [hshown]; rfl⟩)
  rw [hi, h.of_elsewhere? hi]

theorem document?_eq (h : k.MeansOnly u target item) {v : Url} (hv : v ∈ k.urls)
    (hmatch : ModulePath.isMatch target v) : k.document? target = some item := by
  obtain ⟨w, hw⟩ : ∃ w, ModulePath.find? target k.urls = some w :=
    Option.isSome_iff_exists.mp (List.find?_isSome.mpr ⟨v, hv, hmatch⟩)
  have hdocument : k.document? target = some (HierarchyItem.program w) :=
    Option.map_eq_some_iff.mpr ⟨w, hw, rfl⟩
  rw [hdocument, h.of_document? hdocument]

/-- A target that may stand for one item alone means that item, unless the item stands at the place
of the one that inherits. -/
theorem parent?_eq (h : k.MeansOnly heir.url target item) (hk : k.urls.Nodup) (hitem : k.IsType item)
    (hnames : names target item) (ha : (heir.url, a) ∈ k.analyses)
    (hapart : heir.url = item.url → item.selection ≠ heir.selection) :
    k.parent? target heir a = some item := by
  obtain ⟨unopened, hstages⟩ := (parent?_eq_stages : ∃ unopened, k.parent? target heir a = _)
  rw [hstages]
  rcases hitem with ⟨⟨v, b⟩, hd, s, hs, htype, hshown, hplain⟩ | ⟨v, hv, rfl⟩
  · obtain ⟨hsname, hurl, -⟩ := HierarchyItem.of_ofSymbol? hshown
    have hname : s.name = className target := hsname ▸ (className_of_names hnames
      (HierarchyItem.kind_of_ofSymbol? hshown) hplain).symm
    by_cases hsame : v = heir.url
    · subst hsame
      obtain rfl : a = b := Option.some.inj <|
        ((lookup_eq_some_iff hk).mpr ha).symm.trans ((lookup_eq_some_iff hk).mpr hd)
      rw [h.sibling?_eq ha hs htype hname (hapart hurl.symm), Option.some_or]
    · refine or_eq_some (fun i => h.of_sibling? ha) (or_eq_some (fun i => h.of_filed?) ?_)
      rw [h.elsewhere?_eq hd hsame hs htype hname, Option.some_or]
  · refine or_eq_some (fun i => h.of_sibling? ha) (or_eq_some (fun i => h.of_filed?)
      (or_eq_some (fun i => h.of_elsewhere?) ?_))
    rw [h.document?_eq hv hnames, Option.some_or]

end MeansOnly

/-- What an heir inherits is clear: the inherit symbols that name the item stand directly in what they
count for, no two symbols of the document look the same, the targets may stand for nothing else, and
the item does not stand where the heir does. -/
structure IsClear (k : Knowledge) (item heir : HierarchyItem) (a : Analysis) : Prop where
  direct : ∀ s ∈ a.walk, ∀ c ∈ s.children, ∀ target, c.inherited? = some target →
    names target item → s.isType
  told : ∀ s ∈ a.walk, ∀ t ∈ a.walk, s.name = t.name → s.selection = t.selection → s = t
  means : ∀ owner target, (owner, target) ∈ a.edges → ownerItem? heir.url owner = some heir →
    names target item → k.MeansOnly heir.url target item
  apart : heir.url = item.url → item.selection ≠ heir.selection

/-- An inherit symbol that counts for an heir is one of its own declarations. -/
theorem IsClear.mem_inheritedBy (h : k.IsClear item heir a) {owner : Option Symbol}
    (hedge : (owner, target) ∈ a.edges) (hnames : names target item)
    (howner : ownerItem? heir.url owner = some heir) : target ∈ inheritedBy a heir := by
  unfold inheritedBy
  rcases Symbol.mem_inheritEdges hedge with ⟨rfl, c, hc, hct⟩ | ⟨s, hs, hcounts, c, hc, hct⟩
  · have hkind : heir.kind = .program := congrArg HierarchyItem.kind (Option.some.inj howner).symm
    rw [hkind]
    exact List.mem_filterMap.mpr ⟨c, hc, hct⟩
  · obtain rfl := hcounts (h.direct s hs c hc target hct hnames)
    have hkind := HierarchyItem.kind_of_ofSymbol? howner
    obtain ⟨hname, -, -, hselection⟩ := HierarchyItem.of_ofSymbol? howner
    have hsymbol : heir.symbolIn? a = some s := by
      obtain ⟨t, ht⟩ : ∃ t, heir.symbolIn? a = some t := Option.isSome_iff_exists.mp
        (List.find?_isSome.mpr ⟨s, hs, by simp [hname, hselection]⟩)
      have hfound := List.find?_some ht
      simp only [Bool.and_eq_true, decide_eq_true_eq] at hfound
      rw [ht, h.told t (List.mem_of_find?_eq_some ht) s hs (hfound.1.trans hname)
        (hfound.2.trans hselection)]
    split
    · contradiction
    · rw [hsymbol]
      exact List.mem_filterMap.mpr ⟨c, hc, hct⟩

/-- What is listed as inheriting from an item does inherit from it, where what it inherits is clear. -/
theorem supertypes_of_subtypes (hk : k.urls.Nodup) (hitem : k.IsType item)
    (hheir : heir ∈ k.subtypes limit item)
    (hclear : ∀ a, k.latest? heir.url = some a → k.IsClear item heir a)
    (hroom : (k.supertypes limit heir).length < limit) : item ∈ k.supertypes limit heir := by
  obtain ⟨u, a, owner, target, hd, hedge, hnames, howner⟩ := exists_edge_of_subtypes hheir
  obtain rfl : heir.url = u := by
    cases owner with
    | none => exact congrArg HierarchyItem.url (Option.some.inj howner).symm
    | some s => exact (HierarchyItem.of_ofSymbol? howner).2.1
  have ha : k.latest? heir.url = some a := (lookup_eq_some_iff hk).mpr hd
  have hclear := hclear a ha
  exact mem_supertypes ha hroom (hclear.mem_inheritedBy hedge hnames howner)
    ((hclear.means owner target hedge howner hnames).parent?_eq hk hitem hnames hd hclear.apart)

section Kennel

/-- A document with a class `Animal` and a class `Dog` that inherits it, and a document with one more
class. -/
def kennel (other : String) : Knowledge where
  analyses := [
    (⟨"file", some "", "/a.pike", none, none⟩, {
      symbols := [
        .scope ⟨"Animal", ⟨⟨0, 0⟩, ⟨1, 1⟩⟩, ⟨⟨0, 6⟩, ⟨0, 12⟩⟩⟩ .classScope [],
        .scope ⟨"Dog", ⟨⟨2, 0⟩, ⟨4, 1⟩⟩, ⟨⟨2, 6⟩, ⟨2, 9⟩⟩⟩ .classScope [
          .leaf ⟨"Animal", ⟨⟨3, 2⟩, ⟨3, 17⟩⟩, ⟨⟨3, 10⟩, ⟨3, 16⟩⟩⟩ (.inheritance "Animal")]]
      diagnostics := []
      index := [] }),
    (⟨"file", some "", "/c.pike", none, none⟩, {
      symbols := [.scope ⟨other, ⟨⟨0, 0⟩, ⟨1, 1⟩⟩, ⟨⟨0, 6⟩, ⟨0, 12⟩⟩⟩ .classScope []]
      diagnostics := []
      index := [] })]
  imports _ := none
  inheritedFile _ _ := none
  workspace := none

def kennelAnimal (path : String) : HierarchyItem :=
  ⟨"Animal", .classType, ⟨"file", some "", path, none, none⟩, ⟨⟨0, 0⟩, ⟨1, 1⟩⟩, ⟨⟨0, 6⟩, ⟨0, 12⟩⟩, none⟩

def kennelDog : HierarchyItem :=
  ⟨"Dog", .classType, ⟨"file", some "", "/a.pike", none, none⟩, ⟨⟨2, 0⟩, ⟨4, 1⟩⟩,
    ⟨⟨2, 6⟩, ⟨2, 9⟩⟩, none⟩

theorem kennel_isClear : ∀ a, (kennel "Owl").latest? kennelDog.url = some a →
    (kennel "Owl").IsClear (kennelAnimal "/a.pike") kennelDog a := by
  have hmatch : ∀ v ∈ (kennel "Owl").urls, ModulePath.isMatch "Animal" v = false := by decide +kernel
  have hname : className "Animal" = "Animal" := by decide +kernel
  intro a ha
  obtain rfl : _ = a := Option.some.inj ha
  refine ⟨?_, ?_, ?_, ?_⟩
  · simp [Analysis.walk, Symbol.walk_eq_preorders, Symbol.preorders, Symbol.preorder, Symbol.children,
      Symbol.inherited?, Symbol.isType]
  · simp [Analysis.walk, Symbol.walk_eq_preorders, Symbol.preorders, Symbol.preorder, Symbol.name,
      Symbol.selection, Symbol.heading]
  · intro owner target hedge _ _
    obtain ⟨-, rfl⟩ : _ ∧ target = "Animal" := by
      simpa [Analysis.edges, Symbol.inheritEdges, Symbol.inherited?, Symbol.children] using hedge
    refine ⟨?_, by simp [kennel], fun v hv hm => absurd hm (by simp [hmatch v hv])⟩
    simp [kennel, Analysis.walk, Symbol.walk_eq_preorders, Symbol.preorders, Symbol.preorder,
      Symbol.isType, Symbol.name, Symbol.heading, hname, HierarchyItem.ofSymbol?, kennelAnimal]
  · intro _
    decide

/-- Where there is one class `Animal`, `Dog` is listed under it and inherits from it. -/
theorem supertypes_of_subtypes_kennel : (kennel "Owl").urls.Nodup ∧
    (kennel "Owl").IsType (kennelAnimal "/a.pike") ∧
    kennelDog ∈ (kennel "Owl").subtypes 10 (kennelAnimal "/a.pike") ∧
    kennelAnimal "/a.pike" ∈ (kennel "Owl").supertypes 10 kennelDog := by
  have hk : (kennel "Owl").urls.Nodup := by decide +kernel
  have hitem : (kennel "Owl").IsType (kennelAnimal "/a.pike") :=
    .inl ⟨_, List.mem_cons_self, _, Symbol.mem_walk_of_mem List.mem_cons_self, rfl, rfl,
      by decide +kernel⟩
  have hheir : kennelDog ∈ (kennel "Owl").subtypes 10 (kennelAnimal "/a.pike") := by decide +kernel
  exact ⟨hk, hitem, hheir,
    supertypes_of_subtypes hk hitem hheir kennel_isClear (by decide +kernel)⟩

/-- Where there are two, `Dog` is listed under the one that it does not inherit from. -/
theorem subtypes_namesake : (kennel "Animal").subtypes 10 (kennelAnimal "/c.pike") = [kennelDog] ∧
    (kennel "Animal").supertypes 10 kennelDog = [kennelAnimal "/a.pike"] := by
  decide +kernel

end Kennel

end Knowledge
end LanguageServer
