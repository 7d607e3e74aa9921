import LanguageServer.Proofs.Hierarchy.Gathering

/-! Calls out of an item and calls of an item are two views of the same uses: where the range of a
callable holds a use, the other direction shows it under the innermost callable around it. -/
namespace LanguageServer

/-- The callable that calls at a position are made from: it lies in every other one there. -/
structure Analysis.IsInnermostCaller (a : Analysis) (p : Position) (s : Symbol) : Prop where
  mem : s ∈ a.walk
  isCaller : s.isCaller
  around : s.range.contains p
  inside : ∀ t ∈ a.walk, t.isCaller → t.range.contains p → s ∈ Symbol.walk [t]

theorem Analysis.innermost?_eq_some {a : Analysis} {p : Position} {accept : Symbol → Bool} {s : Symbol}
    (h : a.innermost? p accept = some s) : s ∈ a.walk ∧ accept s ∧ s.range.contains p :=
  (Symbol.innermost_eq_some h).resolve_left nofun

/-- Where ranges are well nested, a position in a callable has an innermost one. -/
theorem Analysis.exists_innermostCaller {a : Analysis} (h : Symbol.IsNested a.symbols) {p : Position}
    {t : Symbol} (ht : t ∈ a.walk) (hcaller : t.isCaller) (hp : t.range.contains p) :
    ∃ s, a.innermost? p Symbol.isCaller = some s ∧ a.IsInnermostCaller p s := by
  obtain ⟨s, hs, -⟩ := h.innermost_mem ht hcaller hp
  obtain ⟨hmem, hacc, hin⟩ := Analysis.innermost?_eq_some (a := a) hs
  refine ⟨s, hs, hmem, hacc, hin, fun t ht hcaller hp => ?_⟩
  obtain ⟨s', hs', hmem'⟩ := h.innermost_mem ht hcaller hp
  exact Option.some.inj (hs.symm.trans hs') ▸ hmem'

namespace Knowledge

variable {k : Knowledge} {limit : Nat} {item target caller callee : HierarchyItem} {u : Url}
  {a : Analysis} {r : Range}

/-- An item that calls are made from: it shows such a symbol of its document. -/
def IsCaller (k : Knowledge) (caller : HierarchyItem) : Prop :=
  ∃ a s, (caller.url, a) ∈ k.analyses ∧ s ∈ a.walk ∧ s.isCaller ∧
    HierarchyItem.ofSymbol? caller.url s = some caller

/-- What calls are made from differs, within a document, in name or place. -/
def TellsCallers (k : Knowledge) : Prop :=
  ∀ d ∈ k.analyses, ∀ s ∈ d.2.walk, ∀ t ∈ d.2.walk, s.isCaller → t.isCaller →
    s.name = t.name → s.selection.start = t.selection.start → s = t

/-- The calls out of an item show a call of another one at a place. -/
def ShowsOutgoing (k : Knowledge) (limit : Nat) (caller target : HierarchyItem) (r : Range) : Prop :=
  ∃ d ∈ (k.outgoing limit caller).found, d.item.key = target.key ∧ r ∈ d.sites

/-- The two directions agree where their lists have room left: what the calls of an item show, the
calls out of the caller show, and what the calls out of a callable show, the calls of the callee
show under the innermost callable around the place. -/
structure IsDual (k : Knowledge) (limit : Nat) : Prop where
  forth : ∀ target, ∀ c ∈ (k.incoming limit target).found, ∀ r ∈ c.sites,
    (k.outgoing limit c.item).found.length < limit → k.ShowsOutgoing limit c.item target r
  back : ∀ d ∈ k.analyses, Symbol.IsNested d.2.symbols → ∀ s ∈ d.2.walk, s.isCaller →
    ∀ caller, HierarchyItem.ofSymbol? d.1 s = some caller →
    ∀ callee ∈ (k.outgoing limit caller).found, ∀ r ∈ callee.sites,
    (k.incoming limit callee.item).found.length < limit →
    ∃ t, d.2.IsInnermostCaller r.start t ∧ t ∈ Symbol.walk [s] ∧
      ∃ c ∈ (k.incoming limit callee.item).found,
        HierarchyItem.ofSymbol? d.1 t = some c.item ∧ r ∈ c.sites

/-- The two directions agree on the keys of callers, whatever items have these keys. -/
structure IsDualByKey (k : Knowledge) (limit : Nat) : Prop where
  forth : ∀ target, ∀ c ∈ (k.incoming limit target).found, ∀ r ∈ c.sites,
    ∃ caller, k.IsCaller caller ∧ caller.key = c.item.key ∧
      ((k.outgoing limit caller).found.length < limit → k.ShowsOutgoing limit caller target r)
  back : ∀ d ∈ k.analyses, Symbol.IsNested d.2.symbols → ∀ s ∈ d.2.walk, s.isCaller →
    ∀ caller, HierarchyItem.ofSymbol? d.1 s = some caller →
    ∀ callee ∈ (k.outgoing limit caller).found, ∀ r ∈ callee.sites,
    (k.incoming limit callee.item).found.length < limit →
    ∃ t, d.2.IsInnermostCaller r.start t ∧ t ∈ Symbol.walk [s] ∧
      ∃ c ∈ (k.incoming limit callee.item).found,
        c.item.key = ⟨d.1, t.selection.start, t.name⟩ ∧ r ∈ c.sites

/-- Every item among the callers was seen, and so were its places. -/
theorem IsOrderly.isCaller_of_incoming (h : k.IsOrderly) {c : Call}
    (hc : c ∈ (k.incoming limit target).found) : k.IsCaller c.item := by
  obtain ⟨taken, hhead, hgathered, -⟩ := exists_gathered limit (k.callers target)
  rw [found_incoming] at hc
  obtain ⟨r, hr⟩ := hgathered.items c hc
  obtain ⟨u, a, p, callee, s, hd, -, -, hs, hitem, -⟩ := h.mem_callers.mp (hhead.subset hr)
  obtain ⟨hmem, hcaller, -⟩ := Analysis.innermost?_eq_some hs
  obtain rfl := (HierarchyItem.of_ofSymbol? hitem).2.1
  exact ⟨a, s, hd, hmem, hcaller, hitem⟩

/-- A place among the calls of an item is a use of it in an innermost callable. -/
theorem IsOrderly.use_of_incoming (h : k.IsOrderly) {c : Call}
    (hc : c ∈ (k.incoming limit target).found) (hr : r ∈ c.sites) :
    ∃ a p callee s caller, (caller.url, a) ∈ k.analyses ∧
      k.Uses caller.url a target.name p callee ∧ callee.key = target.key ∧
      a.innermost? p Symbol.isCaller = some s ∧
      HierarchyItem.ofSymbol? caller.url s = some caller ∧ caller.key = c.item.key ∧
      r = site p target.name := by
  obtain ⟨taken, hhead, hgathered, -⟩ := exists_gathered limit (k.callers target)
  rw [found_incoming] at hc
  rw [hgathered.sites c hc, mem_placesOf] at hr
  obtain ⟨caller, hseen, hkey⟩ := hr
  obtain ⟨u, a, p, callee, s, hd, huse, htarget, hs, hitem, hsite⟩ :=
    h.mem_callers.mp (hhead.subset hseen)
  obtain rfl := (HierarchyItem.of_ofSymbol? hitem).2.1
  exact ⟨a, p, callee, s, caller, hd, huse, htarget, hs, hitem, hkey, hsite⟩

/-- A use in the range of an item is among the calls out of it. -/
theorem IsOrderly.showsOutgoing (h : k.IsOrderly) {p : Position} {name : String}
    (hd : (caller.url, a) ∈ k.analyses) (hp : caller.range.contains p)
    (huse : k.Uses caller.url a name p callee) (hkey : callee.key = target.key)
    (hroom : (k.outgoing limit caller).found.length < limit) :
    k.ShowsOutgoing limit caller target (site p name) := by
  obtain ⟨taken, -, hgathered, hall⟩ := exists_gathered limit (k.callees caller)
  rw [found_outgoing] at hroom
  have hseen : (callee, site p name) ∈ taken :=
    hall hroom ▸ mem_callees.mpr ⟨a, p, name, h.latest?_eq_some.mpr hd, hp, huse, rfl⟩
  obtain ⟨d, hfound, hdk, hsite⟩ := hgathered.exists_call hseen
  exact ⟨d, found_outgoing ▸ hfound, hdk.trans hkey, hsite⟩

/-- A place among the calls out of an item is a use in its range of what has the key shown. -/
theorem IsOrderly.use_of_outgoing (h : k.IsOrderly) {d : Call}
    (hd : d ∈ (k.outgoing limit caller).found) (hr : r ∈ d.sites) :
    ∃ a p callee, (caller.url, a) ∈ k.analyses ∧ caller.range.contains p ∧
      k.Uses caller.url a d.item.name p callee ∧ callee.key = d.item.key ∧
      r = site p d.item.name := by
  obtain ⟨taken, hhead, hgathered, -⟩ := exists_gathered limit (k.callees caller)
  rw [found_outgoing] at hd
  rw [hgathered.sites d hd, mem_placesOf] at hr
  obtain ⟨callee, hseen, hkey⟩ := hr
  obtain ⟨a, p, name, hlatest, hp, huse, hsite⟩ := mem_callees.mp (hhead.subset hseen)
  have hname : d.item.name = name :=
    (congrArg HierarchyItem.Key.name hkey).symm.trans (name_of_callable? huse.means)
  subst hname
  exact ⟨a, p, callee, h.latest?_eq_some.mp hlatest, hp, huse, hkey, hsite⟩

/-- A use in an innermost callable is among the calls of what is used. -/
theorem IsOrderly.exists_incoming (h : k.IsOrderly) {p : Position} {s : Symbol}
    (hd : (u, a) ∈ k.analyses) (huse : k.Uses u a target.name p callee)
    (hkey : callee.key = target.key) (hs : a.innermost? p Symbol.isCaller = some s)
    (hroom : (k.incoming limit target).found.length < limit) :
    ∃ c ∈ (k.incoming limit target).found,
      c.item.key = ⟨u, s.selection.start, s.name⟩ ∧ site p target.name ∈ c.sites := by
  have hcallable : s.isCallable := by
    have := (Analysis.innermost?_eq_some hs).2.1
    simp only [Symbol.isCaller, Bool.and_eq_true] at this
    exact this.1
  obtain ⟨caller, hcaller⟩ := HierarchyItem.ofSymbol?_of_isCallable hcallable
  obtain ⟨taken, -, hgathered, hall⟩ := exists_gathered limit (k.callers target)
  rw [found_incoming] at hroom
  have hseen : (caller, site p target.name) ∈ taken :=
    hall hroom ▸ h.mem_callers.mpr ⟨u, a, p, callee, s, hd, huse, hkey, hs, hcaller, rfl⟩
  obtain ⟨c, hfound, hck, hsite⟩ := hgathered.exists_call hseen
  exact ⟨c, found_incoming ▸ hfound, hck.trans (HierarchyItem.key_of_ofSymbol? hcaller), hsite⟩

/-- Where callers are told apart, an item with the key of a symbol is the item of that symbol. -/
theorem TellsCallers.ofSymbol?_eq (h : k.TellsCallers) {c : HierarchyItem} (hc : k.IsCaller c)
    (hurls : k.IsOrderly) (hd : (u, a) ∈ k.analyses) {s : Symbol} (hs : s ∈ a.walk)
    (hcaller : s.isCaller) (hkey : c.key = ⟨u, s.selection.start, s.name⟩) :
    HierarchyItem.ofSymbol? u s = some c := by
  obtain ⟨a', t, hd', ht, htc, hitem⟩ := hc
  rw [HierarchyItem.key_of_ofSymbol? hitem] at hkey
  simp only [HierarchyItem.Key.mk.injEq] at hkey
  obtain ⟨rfl, hstart, hname⟩ := hkey
  obtain rfl : a = a' := Option.some.inj <|
    (hurls.latest?_eq_some.mpr hd).symm.trans (hurls.latest?_eq_some.mpr hd')
  obtain rfl : t = s := h _ hd t ht s hs htc hcaller hname hstart
  exact hitem

theorem IsOrderly.isDualByKey (h : k.IsOrderly) (limit : Nat) : k.IsDualByKey limit where
  forth := by
    intro target c hc r hr
    obtain ⟨a, p, callee, s, caller, hd, huse, htarget, hs, hitem, hkey, rfl⟩ :=
      h.use_of_incoming hc hr
    obtain ⟨hmem, hcaller, hp⟩ := Analysis.innermost?_eq_some hs
    rw [← (HierarchyItem.of_ofSymbol? hitem).2.2.1] at hp
    exact ⟨caller, ⟨a, s, hd, hmem, hcaller, hitem⟩, hkey, h.showsOutgoing hd hp huse htarget⟩
  back := by
    rintro ⟨u, a⟩ hd hnested s hs hcaller caller hitem d hfound r hr hroom
    obtain ⟨a', p, callee, hd', hp, huse, hkey, rfl⟩ := h.use_of_outgoing hfound hr
    obtain ⟨-, rfl, hrange, -⟩ := HierarchyItem.of_ofSymbol? hitem
    obtain rfl : a = a' := Option.some.inj <|
      (h.latest?_eq_some.mpr hd).symm.trans (h.latest?_eq_some.mpr hd')
    rw [hrange] at hp
    obtain ⟨t, ht, hinner⟩ := Analysis.exists_innermostCaller hnested hs hcaller hp
    exact ⟨t, hinner, hinner.inside s hs hcaller hp, h.exists_incoming hd huse hkey ht hroom⟩

theorem IsOrderly.isDual (h : k.IsOrderly) (htells : k.TellsCallers) (limit : Nat) :
    k.IsDual limit where
  forth := by
    intro target c hc r hr hroom
    obtain ⟨caller, ⟨a, s, hd, hs, hcaller, hitem⟩, hkey, hshows⟩ :=
      (h.isDualByKey limit).forth target c hc r hr
    have hsame : HierarchyItem.ofSymbol? caller.url s = some c.item :=
      htells.ofSymbol?_eq (h.isCaller_of_incoming hc) h hd hs hcaller
        (hkey.symm.trans (HierarchyItem.key_of_ofSymbol? hitem))
    obtain rfl : caller = c.item := Option.some.inj (hitem.symm.trans hsame)
    exact hshows hroom
  back := by
    intro d hd hnested s hs hcaller caller hitem callee hcallee r hr hroom
    obtain ⟨t, hinner, hin, c, hc, hkey, hsite⟩ :=
      (h.isDualByKey limit).back d hd hnested s hs hcaller caller hitem callee hcallee r hr hroom
    exact ⟨t, hinner, hin, c, hc, htells.ofSymbol?_eq (h.isCaller_of_incoming hc) h hd hinner.mem
      hinner.isCaller hkey, hsite⟩

/-- The two directions agree on the keys of callers, and on the callers themselves where these are
told apart by their keys. -/
theorem incoming_outgoing_dual (h : k.IsOrderly) (limit : Nat) :
    k.IsDualByKey limit ∧ (k.TellsCallers → k.IsDual limit) :=
  ⟨h.isDualByKey limit, fun htells => h.isDual htells limit⟩

section Nested

/-- A document with a function `f`, another one inside it whose name begins at the same place, and a
function `g` that both call. -/
def nested (inner : String) : Knowledge where
  analyses := [(⟨"file", some "", "/a.pike", none, none⟩, {
    symbols := [
      .scope ⟨"f", ⟨⟨0, 0⟩, ⟨9, 0⟩⟩, ⟨⟨0, 0⟩, ⟨0, 1⟩⟩⟩ (.function none false) [
        .scope ⟨inner, ⟨⟨0, 0⟩, ⟨1, 0⟩⟩, ⟨⟨0, 0⟩, ⟨0, 1⟩⟩⟩ (.function none false) []],
      .scope ⟨"g", ⟨⟨10, 0⟩, ⟨10, 9⟩⟩, ⟨⟨10, 5⟩, ⟨10, 6⟩⟩⟩ (.function none false) []]
    diagnostics := []
    index := [("g", [⟨0, 5⟩, ⟨5, 0⟩])] })]
  imports _ := none
  inheritedFile _ _ := none
  workspace := none

def nestedItem (name : String) (range selection : Range) : HierarchyItem :=
  ⟨name, .function, ⟨"file", some "", "/a.pike", none, none⟩, range, selection, none⟩

def nestedCallee : HierarchyItem := nestedItem "g" ⟨⟨10, 0⟩, ⟨10, 9⟩⟩ ⟨⟨10, 5⟩, ⟨10, 6⟩⟩

theorem nested_isOrderly (inner : String) : (nested inner).IsOrderly :=
  ⟨by simp [urls, nested], by simp [nested]⟩

/-- Functions told apart by their names share the calls, each those around which it is innermost. -/
theorem incoming_outgoing_dual_nested : (nested "h").IsOrderly ∧ (nested "h").TellsCallers ∧
    ((nested "h").incoming 10 nestedCallee).found =
      [⟨nestedItem "h" ⟨⟨0, 0⟩, ⟨1, 0⟩⟩ ⟨⟨0, 0⟩, ⟨0, 1⟩⟩, [⟨⟨0, 5⟩, ⟨0, 6⟩⟩]⟩,
        ⟨nestedItem "f" ⟨⟨0, 0⟩, ⟨9, 0⟩⟩ ⟨⟨0, 0⟩, ⟨0, 1⟩⟩, [⟨⟨5, 0⟩, ⟨5, 1⟩⟩]⟩] ∧
    (nested "h").IsDual 10 := by
  have htells : (nested "h").TellsCallers := by
    simp [TellsCallers, nested, Analysis.walk, Symbol.walk_eq_preorders, Symbol.preorders,
      Symbol.preorder, Symbol.name, Symbol.heading]
  exact ⟨nested_isOrderly "h", htells, by decide +kernel,
    (incoming_outgoing_dual (nested_isOrderly "h") 10).2 htells⟩

/-- Two functions of one key count as one caller: the calls of `g` show the place in the outer one
under the inner one, from which it is not called there. -/
theorem not_isDual_nested : (nested "f").IsOrderly ∧ ¬(nested "f").IsDual 10 := by
  refine ⟨nested_isOrderly "f", fun hdual => ?_⟩
  have hfound : ((nested "f").incoming 10 nestedCallee).found =
      [⟨nestedItem "f" ⟨⟨0, 0⟩, ⟨1, 0⟩⟩ ⟨⟨0, 0⟩, ⟨0, 1⟩⟩, [⟨⟨0, 5⟩, ⟨0, 6⟩⟩, ⟨⟨5, 0⟩, ⟨5, 1⟩⟩]⟩] := by
    decide +kernel
  obtain ⟨d, hd, -, hr⟩ := hdual.forth nestedCallee _ (hfound ▸ List.mem_singleton.mpr rfl)
    ⟨⟨5, 0⟩, ⟨5, 1⟩⟩ (by simp) (by decide +kernel)
  have hsites : ∀ d ∈ ((nested "f").outgoing 10
      (nestedItem "f" ⟨⟨0, 0⟩, ⟨1, 0⟩⟩ ⟨⟨0, 0⟩, ⟨0, 1⟩⟩)).found, ⟨⟨5, 0⟩, ⟨5, 1⟩⟩ ∉ d.sites := by
    decide +kernel
  exact hsites d hd hr

end Nested

end Knowledge
end LanguageServer
