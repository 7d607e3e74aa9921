import LanguageServer.Proofs.Hierarchy.Gathering
import LanguageServer.Proofs.Hierarchy.Growth

/-! What a tree of calls shows. It has the shape of a search by levels, and if it is not cut short it
shows everything that can be reached, on the level where it is reached first, with all its calls. -/
namespace LanguageServer

namespace Knowledge

variable {k : Knowledge} {direction : CallDirection} {limit : Nat} {item root : HierarchyItem}

/-- The calls of an item in a direction. -/
def calls (k : Knowledge) (direction : CallDirection) (limit : Nat) (item : HierarchyItem) : Calls :=
  match direction with
  | .incoming => k.incoming limit item
  | .outgoing => k.outgoing limit item

def sightings (k : Knowledge) (direction : CallDirection) (item : HierarchyItem) : List Sighting :=
  match direction with
  | .incoming => k.callers item
  | .outgoing => k.callees item

theorem found_calls : (k.calls direction limit item).found =
    (gather limit (k.sightings direction item) []).1 := by
  cases direction with
  | incoming => exact found_incoming
  | outgoing => exact found_outgoing

/-- The calls of an item that are shown when no limit cuts them short. -/
def ShowsAll (k : Knowledge) (direction : CallDirection) (item : HierarchyItem)
    (found : List Call) : Prop :=
  ∃ bound, ∀ limit, bound ≤ limit → (k.calls direction limit item).found = found

theorem ShowsAll.unique {found found' : List Call} (h : k.ShowsAll direction item found)
    (h' : k.ShowsAll direction item found') : found = found' := by
  obtain ⟨bound, hbound⟩ := h
  obtain ⟨bound', hbound'⟩ := h'
  exact (hbound (max bound bound') (Nat.le_max_left ..)).symm.trans
    (hbound' _ (Nat.le_max_right ..))

/-- A list with room left shows all calls. -/
theorem showsAll_of_room (hroom : (k.calls direction limit item).found.length < limit) :
    k.ShowsAll direction item (k.calls direction limit item).found := by
  refine ⟨limit, fun more hle => ?_⟩
  rw [found_calls] at hroom
  rw [found_calls, found_calls, gather_mono hle]
  refine Bool.eq_false_iff.mpr fun hfull => ?_
  have := le_length_gather hfull
  omega

/-- Whatever is asked, some limit is enough to show all calls. -/
theorem exists_showsAll (k : Knowledge) (direction : CallDirection) (item : HierarchyItem) :
    ∃ found, k.ShowsAll direction item found := by
  refine ⟨(k.calls direction (k.sightings direction item).length item).found,
    (k.sightings direction item).length, fun limit hle => ?_⟩
  rw [found_calls, found_calls, gather_mono hle (gather_whole (by simp))]

/-- An item that can be reached from another one by a number of calls. -/
inductive Reaches (k : Knowledge) (direction : CallDirection) (root : HierarchyItem) :
    Nat → HierarchyItem → Prop
  | root : Reaches k direction root 0 root
  | step {n : Nat} {i : HierarchyItem} {found : List Call} {c : Call}
    (hi : Reaches k direction root n i) (hfound : k.ShowsAll direction i found) (hc : c ∈ found) :
    Reaches k direction root (n + 1) c.item

/-- An item that a document shows. -/
def IsShown (k : Knowledge) (item : HierarchyItem) : Prop :=
  ∃ a s, (item.url, a) ∈ k.analyses ∧ s ∈ a.walk ∧ HierarchyItem.ofSymbol? item.url s = some item

/-- The symbols of a document differ in name or place. -/
def TellsSymbols (k : Knowledge) : Prop :=
  ∀ d ∈ k.analyses, ∀ s ∈ d.2.walk, ∀ t ∈ d.2.walk,
    s.name = t.name → s.selection.start = t.selection.start → s = t

/-- Where symbols are told apart, so are the items that documents show. -/
theorem TellsSymbols.item_eq (htells : k.TellsSymbols) (h : k.IsOrderly) {i j : HierarchyItem}
    (hi : k.IsShown i) (hj : k.IsShown j) (hkey : i.key = j.key) : i = j := by
  obtain ⟨a, s, hd, hs, hitem⟩ := hi
  obtain ⟨b, t, hd', ht, hitem'⟩ := hj
  rw [HierarchyItem.key_of_ofSymbol? hitem, HierarchyItem.key_of_ofSymbol? hitem'] at hkey
  simp only [HierarchyItem.Key.mk.injEq] at hkey
  obtain ⟨hurl, hstart, hname⟩ := hkey
  rw [← hurl] at hd' hitem'
  obtain rfl : a = b := Option.some.inj <|
    (h.latest?_eq_some.mpr hd).symm.trans (h.latest?_eq_some.mpr hd')
  obtain rfl : s = t := htells _ hd s hs t ht hname hstart
  exact Option.some.inj (hitem.symm.trans hitem')

theorem isShown_of_callableIn? {name : String} {d : Url × Analysis} (hd : d ∈ k.analyses)
    (h : callableIn? name d = some item) : k.IsShown item := by
  obtain ⟨u, a⟩ := d
  obtain ⟨s, hs, hitem⟩ := Option.bind_eq_some_iff.mp h
  unfold HierarchyItem.ofCallable? at hitem
  split at hitem
  · obtain ⟨-, rfl, -⟩ := HierarchyItem.of_ofSymbol? hitem
    exact ⟨a, s, hd, List.mem_of_find?_eq_some hs, hitem⟩
  · cases hitem

theorem IsOrderly.isShown_of_callable? (h : k.IsOrderly) {name : String} {u : Url} {a : Analysis}
    (hd : (u, a) ∈ k.analyses) (hitem : k.callable? name u a = some item) : k.IsShown item := by
  unfold callable? at hitem
  split at hitem
  · exact isShown_of_callableIn? hd hitem
  · rcases Option.or_eq_some_iff.mp hitem with hitem | ⟨-, hitem⟩
    · obtain ⟨dep, -, hdep⟩ := List.exists_of_findSome?_eq_some hitem
      obtain ⟨d, hd, hitem⟩ := Option.bind_eq_some_iff.mp hdep
      exact isShown_of_callableIn? (h.latest?_eq_some.mp hd) hitem
    · obtain ⟨d, hd, hitem⟩ := List.exists_of_findSome?_eq_some hitem
      exact isShown_of_callableIn? (List.mem_filter.mp hd).1 hitem

/-- What is seen at the other end of a call is shown by a document. -/
theorem IsOrderly.isShown_of_sighting (h : k.IsOrderly) {x : Sighting}
    (hx : x ∈ k.sightings direction item) : k.IsShown x.1 := by
  cases direction with
  | incoming =>
    obtain ⟨u, a, p, callee, s, hd, -, -, hs, hitem, -⟩ := h.mem_callers.mp hx
    obtain ⟨-, rfl, -⟩ := HierarchyItem.of_ofSymbol? hitem
    exact ⟨a, s, hd, ((Symbol.innermost_eq_some hs).resolve_left nofun).1, hitem⟩
  | outgoing =>
    obtain ⟨a, p, name, hd, -, huse, -⟩ := mem_callees.mp hx
    exact h.isShown_of_callable? (h.latest?_eq_some.mp hd) huse.means

theorem IsOrderly.isShown_of_mem (h : k.IsOrderly) {c : Call}
    (hc : c ∈ (k.calls direction limit item).found) : k.IsShown c.item := by
  obtain ⟨taken, hhead, hgathered, -⟩ := exists_gathered limit (k.sightings direction item)
  rw [found_calls] at hc
  obtain ⟨r, hr⟩ := hgathered.items c hc
  exact h.isShown_of_sighting (hhead.subset hr)

/-- Nothing is reached from an item of a document that no document shows. -/
theorem IsOrderly.isShown_of_reaches (h : k.IsOrderly) (hroot : k.IsShown root) {n : Nat}
    (hreach : k.Reaches direction root n item) : k.IsShown item := by
  cases hreach with
  | root => exact hroot
  | step hi hfound hc =>
    obtain ⟨bound, hbound⟩ := hfound
    exact h.isShown_of_mem (hbound bound (Nat.le_refl _) ▸ hc)

end Knowledge

namespace CallTree

/-- The shape of a finished tree. -/
structure IsBounded (t : CallTree) (root : HierarchyItem) (items depth : Nat) : Prop where
  root : t.nodes[0]? = some ⟨root, none, 0, [], false⟩
  parents : ∀ i n, t.nodes[i]? = some n → 0 < i →
    ∃ p m, n.parent = some p ∧ p < i ∧ t.nodes[p]? = some m ∧ n.depth = m.depth + 1
  shallow : ∀ n ∈ t.nodes, n.depth ≤ depth
  few : t.nodes.length ≤ items
  distinct : ((t.nodes.filter fun n => !n.repeated).map fun n => n.item.key).Nodup
  childless : ∀ i n, t.nodes[i]? = some n → n.repeated → t.children i = []

/-- A tree of all that can be reached by so many calls: every item once that is not repeated, as many
levels down as calls lead to it at least, and above the last level with all its calls below it. -/
structure IsClosure (t : CallTree) (k : Knowledge) (direction : CallDirection) (root : HierarchyItem)
    (depth : Nat) : Prop where
  items : ∀ i, (∃ n ∈ t.nodes, n.repeated = false ∧ n.item = i) ↔
    ∃ m, m ≤ depth ∧ k.Reaches direction root m i
  nearest : ∀ n ∈ t.nodes, n.repeated = false →
    k.Reaches direction root n.depth n.item ∧ ∀ m, k.Reaches direction root m n.item → n.depth ≤ m
  calls : ∀ i n, t.nodes[i]? = some n → n.repeated = false → n.depth < depth →
    k.ShowsAll direction n.item (t.shown i)

end CallTree

namespace CallGrowth

variable {k : Knowledge} {direction : CallDirection} {root : HierarchyItem} {limit depth : Nat}
  {g : CallGrowth}

/-- What holds of a tree that was not cut short: all nodes are reached, and those that do not wait
show all their calls. -/
structure IsClosing (k : Knowledge) (direction : CallDirection) (root : HierarchyItem) (depth : Nat)
    (g : CallGrowth) : Prop where
  reached : ∀ n ∈ g.tree.nodes, k.Reaches direction root n.depth n.item
  expanded : ∀ i n, g.tree.nodes[i]? = some n → n.repeated = false → n.depth < depth →
    i ∈ g.frontier ∨ k.ShowsAll direction n.item (g.tree.shown i)

theorem isClosing_seed : IsClosing k direction root depth (seed root) where
  reached := by
    intro n hn
    obtain rfl := List.mem_singleton.mp hn
    exact .root
  expanded := by
    intro i n hn _ _
    have hlt : i < 1 := (List.getElem?_eq_some_iff.mp hn).1
    exact .inl (List.mem_singleton.mpr (by omega))

/-- Where nothing was cut short, expanding a node shows all its calls below it. -/
theorem IsClosing.addCalls {index : Nat} {rest : List Nat} {node : CallNode} {asked : List Url}
    (h : IsClosing k direction root depth g) (hg : Grows root limit depth g)
    (hfrontier : g.frontier = index :: rest) (hnode : g.tree.nodes[index]? = some node)
    (hlimit : (addCalls limit index (node.depth + 1) (k.calls direction limit node.item).found
      { g with frontier := rest, asked := asked }).tree.nodes.length ≤ limit)
    (hopen : (addCalls limit index (node.depth + 1) (k.calls direction limit node.item).found
      { g with frontier := rest, asked := asked }).tree.truncated = false) :
    IsClosing k direction root depth (addCalls limit index (node.depth + 1)
      (k.calls direction limit node.item).found { g with frontier := rest, asked := asked }) := by
  obtain ⟨added, hnodes, hcalls, hadded, hkept, hwait⟩ := exists_added index hopen
  rw [hnodes, List.length_append] at hlimit
  -- the tree had a node before the calls were added, so they are fewer than allowed
  have hroom : (k.calls direction limit node.item).found.length < limit := by
    have hpos : index < g.tree.nodes.length := (List.getElem?_eq_some_iff.mp hnode).1
    rw [← hcalls, List.length_map]
    dsimp only at hlimit
    omega
  have hall := k.showsAll_of_room hroom
  have hshown (i : Nat) : (CallGrowth.addCalls limit index (node.depth + 1)
      (k.calls direction limit node.item).found { g with frontier := rest, asked := asked }).tree.shown i =
      g.tree.shown i ++ if i = index then (k.calls direction limit node.item).found else [] := by
    rw [CallTree.shown_eq, CallTree.shown_eq, hnodes, List.filter_append, List.map_append]
    congr 1
    split
    · rename_i hi
      rw [List.filter_eq_self.mpr fun n hn => by simp [(hadded n hn).1, hi], hcalls]
    · rename_i hi
      rw [List.filter_eq_nil_iff.mpr fun n hn => by simp [(hadded n hn).1, Ne.symm hi], List.map_nil]
  have hnone : g.tree.shown index = [] := by
    rw [CallTree.shown_eq, List.filter_eq_nil_iff.mpr, List.map_nil]
    exact fun n hn => by simpa using hg.queue.childless index (hfrontier ▸ List.mem_cons_self) n hn
  refine ⟨fun n hn => ?_, fun i n hn hnew hdepth => ?_⟩
  · rw [hnodes] at hn
    rcases List.mem_append.mp hn with hn | hn
    · exact h.reached n hn
    · rw [(hadded n hn).2]
      exact .step (h.reached node (List.mem_of_getElem? hnode)) hall
        (hcalls ▸ List.mem_map_of_mem hn : n.call ∈ _)
  · rw [hshown]
    rcases Nat.lt_or_ge i g.tree.nodes.length with hi | hi
    · rw [hnodes, List.getElem?_append_left hi] at hn
      by_cases hindex : i = index
      · subst hindex
        obtain rfl : node = n := Option.some.inj (hnode.symm.trans hn)
        rw [hnone, if_pos rfl]
        exact .inr hall
      · rw [if_neg hindex, List.append_nil]
        refine (h.expanded i n hn hnew hdepth).imp_left fun hi => hkept ?_
        rw [hfrontier] at hi
        exact (List.mem_cons.mp hi).resolve_left hindex
    · exact .inl (hwait i n hi (hnodes ▸ hn) hnew)

theorem IsClosing.round {index : Nat} {rest : List Nat} {node : CallNode}
    (h : IsClosing k direction root depth g) (hg : Grows root limit depth g)
    (hfrontier : g.frontier = index :: rest) (hnode : g.tree.nodes[index]? = some node)
    (hopen : (round (k.calls direction limit) limit depth index rest node g).tree.truncated = false) :
    IsClosing k direction root depth
      (round (k.calls direction limit) limit depth index rest node g) := by
  have hnext : Grows root limit depth (CallGrowth.round (k.calls direction limit) limit depth index rest
    node g) := hg.round hfrontier hnode
  unfold CallGrowth.round at hopen hnext ⊢
  split at hopen
  · rename_i hdeep
    rw [if_pos hdeep]
    refine ⟨h.reached, fun i n hn hnew hdepth => ?_⟩
    refine (h.expanded i n hn hnew hdepth).imp_left fun hi => ?_
    rw [hfrontier, List.mem_cons] at hi
    refine hi.resolve_left ?_
    rintro rfl
    obtain rfl : node = n := Option.some.inj (hnode.symm.trans hn)
    omega
  · rename_i hdeep
    rw [if_neg hdeep] at hnext ⊢
    exact h.addCalls hg hfrontier hnode hnext.shape.few hopen

/-- Where nothing waits any more, everything in reach is there, and no deeper than calls lead to it. -/
theorem IsClosing.exists_node (h : IsClosing k direction root depth g) (hg : Grows root limit depth g)
    (hdone : g.frontier = []) (hk : k.IsOrderly) (htells : k.TellsSymbols) (hroot : k.IsShown root)
    {m : Nat} {i : HierarchyItem} (hreach : k.Reaches direction root m i) (hm : m ≤ depth) :
    ∃ n ∈ g.tree.nodes, n.repeated = false ∧ n.item = i ∧ n.depth ≤ m := by
  induction hreach with
  | root => exact ⟨_, List.mem_of_getElem? hg.shape.root, rfl, rfl, Nat.le_refl _⟩
  | step hi hfound hc ih =>
    rename_i m i found c
    obtain ⟨n, hn, hnew, rfl, hle⟩ := ih (by omega)
    obtain ⟨j, hj⟩ := List.mem_iff_getElem?.mp hn
    have hshown : k.ShowsAll direction n.item (g.tree.shown j) :=
      (h.expanded j n hj hnew (by omega)).resolve_left (by simp [hdone])
    rw [hfound.unique hshown, CallTree.shown_eq] at hc
    obtain ⟨x, hx, rfl⟩ := List.mem_map.mp hc
    obtain ⟨hx, hparent⟩ := List.mem_filter.mp hx
    have hdepth : x.depth = n.depth + 1 := (hg.shape.of_parent hx hj (by simpa using hparent)).1
    cases hrep : x.repeated with
    | false => exact ⟨x, hx, hrep, rfl, by omega⟩
    | true =>
      obtain ⟨y, hy, hynew, hkey, hyle⟩ := hg.shape.twins x hx hrep
      have hsame : y.item = x.item := htells.item_eq hk
        (hk.isShown_of_reaches hroot (h.reached y hy)) (hk.isShown_of_reaches hroot (h.reached x hx)) hkey
      exact ⟨y, hy, hynew, hsame, by omega⟩

/-- A tree that was not cut short and waits for nothing shows all that is in reach. -/
theorem IsClosing.isClosure (h : IsClosing k direction root depth g) (hg : Grows root limit depth g)
    (hdone : g.frontier = []) (hk : k.IsOrderly) (htells : k.TellsSymbols) (hroot : k.IsShown root) :
    g.tree.IsClosure k direction root depth where
  items i := by
    constructor
    · rintro ⟨n, hn, -, rfl⟩
      exact ⟨n.depth, hg.shape.shallow n hn, h.reached n hn⟩
    · rintro ⟨m, hm, hreach⟩
      obtain ⟨n, hn, hnew, hitem, -⟩ := h.exists_node hg hdone hk htells hroot hreach hm
      exact ⟨n, hn, hnew, hitem⟩
  nearest n hn hnew := by
    refine ⟨h.reached n hn, fun m hreach => ?_⟩
    rcases Nat.lt_or_ge depth m with hm | hm
    · exact Nat.le_of_lt (Nat.lt_of_le_of_lt (hg.shape.shallow n hn) hm)
    · obtain ⟨x, hx, hxnew, hitem, hle⟩ := h.exists_node hg hdone hk htells hroot hreach hm
      obtain rfl : x = n := List.inj_on_of_nodup_map hg.shape.distinct
        (List.mem_filter.mpr ⟨hx, by simp [hxnew]⟩) (List.mem_filter.mpr ⟨hn, by simp [hnew]⟩)
        (congrArg HierarchyItem.key hitem)
      exact hle
  calls i n hn hnew hdepth := (h.expanded i n hn hnew hdepth).resolve_left (by simp [hdone])

/-- The shape of a growing tree is the shape of a finished one. -/
theorem IsShape.isBounded {t : CallTree} {known : List HierarchyItem.Key}
    (h : IsShape root limit depth t.nodes known) : t.IsBounded root limit depth where
  root := h.root
  parents i n hn hi := by
    obtain ⟨p, m, hp, hlt, hm, hdepth, -⟩ := h.parents i n hn hi
    exact ⟨p, m, hp, hlt, hm, hdepth⟩
  shallow := h.shallow
  few := h.few
  distinct := h.distinct
  childless i n hn hrep := by
    refine List.filter_eq_nil_iff.mpr fun j _ hchild => ?_
    cases hx : t.nodes[j]? with
    | none => simp [hx] at hchild
    | some x =>
      have hparent : x.parent = some i := by simpa [hx] using hchild
      have hnew := (h.of_parent (List.mem_of_getElem? hx) hn hparent).2
      rw [hrep] at hnew
      cases hnew

end CallGrowth

namespace Knowledge

open CallGrowth

variable {k : Knowledge}

/-- A tree of calls comes to its end: after as many rounds as items are allowed, nothing waits or
there is no room. It has the shape of a search by levels, and one that was not cut short shows all
that is in reach, if the keys of items tell symbols apart. -/
theorem callTree_closure (hk : k.IsOrderly) (limits : HierarchyLimits) (hitems : 1 ≤ limits.items)
    (direction : CallDirection) (depth : Nat) (root : HierarchyItem) :
    (∃ g : CallGrowth, g.IsGrown ∧ g.tree = (k.callTree limits direction depth root).1 ∧
      ∀ steps, limits.items ≤ steps → grow (k.calls direction limits.items) limits.items
        (min depth limits.depth) steps (seed root) = g) ∧
    (k.callTree limits direction depth root).1.IsBounded root limits.items (min depth limits.depth) ∧
    ((k.callTree limits direction depth root).1.truncated = false →
      k.TellsSymbols → k.IsShown root →
      (k.callTree limits direction depth root).1.IsClosure k direction root
        (min depth limits.depth)) := by
  have hseed : Grows root limits.items (min depth limits.depth) (seed root) := grows_seed hitems
  obtain ⟨hgrows, hclosing⟩ := hseed.grow
    (motive := fun g => g.tree.truncated = false →
      IsClosing k direction root (min depth limits.depth) g)
    (fun g index rest node hg hopen hclosing hfrontier hnode =>
      (hclosing hopen).round hg hfrontier hnode)
    rfl (fun _ => isClosing_seed) (limits.items + 1)
  have hpending : pending limits.items (seed root) ≤ limits.items := by
    simp only [pending, seed, List.length_singleton]
    omega
  obtain ⟨hgrown, hsteps⟩ := hseed.isGrown (k.calls direction limits.items) rfl hpending
  rw [← hsteps _ (Nat.le_succ _)] at hgrown
  refine ⟨⟨_, hgrown, rfl, fun steps hle => (hsteps steps hle).trans (hsteps _ (Nat.le_succ _)).symm⟩,
    hgrows.shape.isBounded, fun hopen htells hroot => ?_⟩
  have hdone := hgrown.resolve_right (Bool.eq_false_iff.mp hopen)
  exact (hclosing hopen).isClosure hgrows hdone hk htells hroot

section Recursion

/-- A document with two functions that call each other. -/
def recursion : Knowledge where
  analyses := [(⟨"file", some "", "/a.pike", none, none⟩, {
    symbols := [
      .scope ⟨"f", ⟨⟨0, 0⟩, ⟨5, 0⟩⟩, ⟨⟨0, 0⟩, ⟨0, 1⟩⟩⟩ (.function none false) [],
      .scope ⟨"g", ⟨⟨10, 0⟩, ⟨15, 0⟩⟩, ⟨⟨10, 0⟩, ⟨10, 1⟩⟩⟩ (.function none false) []]
    diagnostics := []
    index := [("f", [⟨11, 0⟩]), ("g", [⟨1, 0⟩])] })]
  imports _ := none
  inheritedFile _ _ := none
  workspace := none

def recursionItem (name : String) (range selection : Range) : HierarchyItem :=
  ⟨name, .function, ⟨"file", some "", "/a.pike", none, none⟩, range, selection, none⟩

/-- The function that calls back ends its branch, and nothing is cut short. -/
theorem callTree_closure_recursion :
    let f := recursionItem "f" ⟨⟨0, 0⟩, ⟨5, 0⟩⟩ ⟨⟨0, 0⟩, ⟨0, 1⟩⟩
    let g := recursionItem "g" ⟨⟨10, 0⟩, ⟨15, 0⟩⟩ ⟨⟨10, 0⟩, ⟨10, 1⟩⟩
    recursion.IsOrderly ∧ 1 ≤ (⟨10, 3⟩ : HierarchyLimits).items ∧
    (recursion.callTree ⟨10, 3⟩ .outgoing 5 f).1 = ⟨[⟨f, none, 0, [], false⟩,
      ⟨g, some 0, 1, [⟨⟨1, 0⟩, ⟨1, 1⟩⟩], false⟩,
      ⟨f, some 1, 2, [⟨⟨11, 0⟩, ⟨11, 1⟩⟩], true⟩], false⟩ ∧
    (recursion.callTree ⟨10, 3⟩ .outgoing 5 f).1.IsClosure recursion .outgoing f 5 := by
  intro f g
  have hk : recursion.IsOrderly := ⟨by simp [urls, recursion], by simp [recursion]⟩
  have htree : (recursion.callTree ⟨10, 3⟩ .outgoing 5 f).1 = ⟨[⟨f, none, 0, [], false⟩,
      ⟨g, some 0, 1, [⟨⟨1, 0⟩, ⟨1, 1⟩⟩], false⟩,
      ⟨f, some 1, 2, [⟨⟨11, 0⟩, ⟨11, 1⟩⟩], true⟩], false⟩ := by decide +kernel
  have htells : recursion.TellsSymbols := by
    simp [TellsSymbols, recursion, Analysis.walk, Symbol.walk_eq_preorders, Symbol.preorders,
      Symbol.preorder, Symbol.name, Symbol.heading]
  have hroot : recursion.IsShown f := by
    refine ⟨_, _, List.mem_singleton.mpr rfl, Symbol.mem_walk_of_mem List.mem_cons_self, rfl⟩
  exact ⟨hk, by decide, htree, (callTree_closure hk ⟨10, 3⟩ (by decide) .outgoing 5 f).2.2
    (congrArg CallTree.truncated htree) htells hroot⟩

end Recursion

end Knowledge
end LanguageServer

/-! What a limit leaves of the calls of an item: the first ones of the whole list, each with the
places seen before the first sighting that would have made one call too many. -/
namespace LanguageServer

/-- A call with its places among some sightings. -/
def Call.placedIn (seen : List Sighting) (c : Call) : Call :=
  ⟨c.item, Knowledge.placesOf seen c.item.key⟩

namespace Knowledge

variable {limit bound : Nat} {seen taken rest : List Sighting} {calls all part : List Call} {c : Call}

/-- Calls that show what was seen have the places that were seen. -/
theorem Gathered.map_placedIn (h : Gathered seen calls) {some : List Call} (hsub : some ⊆ calls) :
    some.map (Call.placedIn seen) = some := by
  refine (List.map_congr_left fun c hc => ?_).trans (List.map_id some)
  rw [Call.placedIn, ← h.sites c (hsub hc), id]

theorem gathered_of_whole (h : (gather limit seen []).2 = false) :
    Gathered seen (gather limit seen []).1 := by
  obtain ⟨taken, -, hgathered, hall⟩ := Gathered.nil.gather limit seen
  exact hall h ▸ hgathered

/-- A list is made of the sightings up to the first that would make one call too many. -/
theorem exists_taken (limit : Nat) (seen : List Sighting) (calls : List Call) :
    ∃ taken rest, seen = taken ++ rest ∧
      gather limit taken calls = ((gather limit seen calls).1, false) ∧
      ∀ x ∈ rest.head?, addSite limit x.1 x.2 (gather limit seen calls).1 = none := by
  induction seen generalizing calls with
  | nil => exact ⟨[], [], rfl, rfl, by simp⟩
  | cons x seen ih =>
    cases hadd : addSite limit x.1 x.2 calls with
    | none => exact ⟨[], x :: seen, rfl, by simp [gather, hadd], by simp [gather, hadd]⟩
    | some next =>
      obtain ⟨taken, rest, rfl, htaken, hrest⟩ := ih next
      exact ⟨x :: taken, rest, rfl, by simpa [gather, hadd] using htaken,
        by simpa [gather, hadd] using hrest⟩

/-- What a limit leaves of all calls of an item: as many as allowed from the front, with the places
of the sightings that were taken. The first one left out would have made one call too many. -/
structure IsCut (limit : Nat) (taken rest : List Sighting) (all part : List Call) : Prop where
  gathered : Gathered (taken ++ rest) all
  first : part = (all.take limit).map (Call.placedIn taken)
  full : ∀ x ∈ rest.head?, part.length = limit ∧ ∀ c ∈ part, c.item.key ≠ x.1.key

/-- A call keeps all its places if and only if no sighting left out is of its item. -/
theorem placedIn_eq_iff :
    c.placedIn taken = c.placedIn (taken ++ rest) ↔ ∀ x ∈ rest, c.item.key ≠ x.1.key := by
  rw [Call.placedIn, Call.placedIn, Call.mk.injEq, placesOf_append, List.self_eq_append_right]
  simp only [true_and, placesOf, List.map_eq_nil_iff, List.filter_eq_nil_iff, decide_eq_true_eq]
  exact forall₂_congr fun x _ => ne_comm

/-- The calls listed keep all their places if and only if no sighting left out is of one of them. -/
theorem IsCut.eq_take_iff (h : IsCut limit taken rest all part) :
    part = all.take limit ↔ ∀ c ∈ part, ∀ x ∈ rest, c.item.key ≠ x.1.key := by
  have hall := h.gathered.map_placedIn (List.take_subset limit all)
  rw [h.first]
  calc (all.take limit).map (Call.placedIn taken) = all.take limit
      ↔ ∀ c ∈ all.take limit, c.placedIn taken = c.placedIn (taken ++ rest) := by
        rw [← List.map_inj_left, hall]
    _ ↔ ∀ c ∈ all.take limit, ∀ x ∈ rest, c.item.key ≠ x.1.key :=
        forall₂_congr fun c _ => placedIn_eq_iff
    _ ↔ ∀ c ∈ (all.take limit).map (Call.placedIn taken), ∀ x ∈ rest, c.item.key ≠ x.1.key := by
        rw [List.forall_mem_map]
        rfl

/-- A list made with a limit has the first items of the one made with room for everything. -/
theorem items_eq_take (hle : limit ≤ bound) (htaken : (gather limit taken []).2 = false)
    (hfull : rest ≠ [] → limit ≤ (gather limit taken []).1.length) :
    (gather limit taken []).1.map Call.item =
      ((gather bound (taken ++ rest) []).1.map Call.item).take limit := by
  have hbound : gather bound taken [] = gather limit taken [] := gather_mono hle htaken
  have hlength : (gather limit taken []).1.length ≤ limit := length_gather_le (Nat.zero_le _)
  rw [gather_append, hbound, htaken, if_neg Bool.false_ne_true]
  cases rest with
  | nil => exact (List.take_of_length_le (by simpa [gather] using hlength)).symm
  | cons x rest =>
    have hlimit : ((gather limit taken []).1.map Call.item).length = limit := by
      rw [List.length_map]
      exact Nat.le_antisymm hlength (hfull (List.cons_ne_nil x rest))
    have hfirst := List.prefix_iff_eq_take.mp (items_gather bound (x :: rest) (gather limit taken []).1)
    rwa [hlimit] at hfirst

/-- A list made with a limit is a cut of the one made with room for everything. -/
theorem isCut_gather (hle : limit ≤ bound) (hall : (gather bound seen []).2 = false) :
    ∃ taken rest, seen = taken ++ rest ∧
      IsCut limit taken rest (gather bound seen []).1 (gather limit seen []).1 := by
  obtain ⟨taken, rest, rfl, htaken, hrest⟩ := exists_taken limit seen []
  have hpart : (gather limit taken []).1 = (gather limit (taken ++ rest) []).1 := by rw [htaken]
  have hopen : (gather limit taken []).2 = false := by rw [htaken]
  have hgathered := gathered_of_whole hopen
  rw [← hpart] at hrest ⊢
  refine ⟨taken, rest, rfl, gathered_of_whole hall, ?_, fun x hx => ?_⟩
  · have hfull (hne : rest ≠ []) : limit ≤ (gather limit taken []).1.length := by
      obtain ⟨x, more, rfl⟩ := List.exists_cons_of_ne_nil hne
      exact addSite_eq_none (hrest x rfl)
    have hitems := items_eq_take hle hopen hfull
    calc (gather limit taken []).1
        = ((gather limit taken []).1.map Call.item).map fun i => ⟨i, placesOf taken i.key⟩ := by
          rw [List.map_map]
          exact (hgathered.map_placedIn (List.Subset.refl _)).symm
      _ = ((gather bound (taken ++ rest) []).1.take limit).map (Call.placedIn taken) := by
          rw [hitems, ← List.map_take, List.map_map]
          rfl
  · have hnone := hrest x hx
    exact ⟨Nat.le_antisymm (length_gather_le (Nat.zero_le _)) (addSite_eq_none hnone),
      ne_of_addSite_eq_none hnone⟩

variable {k : Knowledge} {direction : CallDirection} {item : HierarchyItem}

/-- The limit chooses which calls are listed, from the front of all calls, and it cuts their places
short where the first call that is not listed was seen: they all have all their places if and only
if none of them was seen again from there on. -/
theorem calls_limited (k : Knowledge) (direction : CallDirection) (item : HierarchyItem)
    (limit : Nat) : ∃ all taken rest, k.ShowsAll direction item all ∧
      k.sightings direction item = taken ++ rest ∧
      IsCut limit taken rest all (k.calls direction limit item).found ∧
      ((k.calls direction limit item).found = all.take limit ↔
        ∀ c ∈ (k.calls direction limit item).found, ∀ x ∈ rest, c.item.key ≠ x.1.key) := by
  obtain ⟨all, bound, hbound⟩ := k.exists_showsAll direction item
  let most := max bound (max limit (k.sightings direction item).length)
  have hall : (gather most (k.sightings direction item) []).1 = all :=
    found_calls.symm.trans (hbound most (Nat.le_max_left ..))
  have hopen : (gather most (k.sightings direction item) []).2 = false :=
    gather_whole (by simp only [List.length_nil]; omega)
  have hlimit : limit ≤ most := by omega
  obtain ⟨taken, rest, hsplit, hcut⟩ := isCut_gather hlimit hopen
  rw [hall, ← found_calls] at hcut
  exact ⟨all, taken, rest, ⟨bound, hbound⟩, hsplit, hcut, hcut.eq_take_iff⟩

/-- A function `f` is called by another one, then by one inside that, and then by the first again. -/
def again : Knowledge where
  analyses := [(⟨"file", some "", "/a.pike", none, none⟩, {
    symbols := [
      .scope ⟨"outer", ⟨⟨0, 0⟩, ⟨4, 1⟩⟩, ⟨⟨0, 5⟩, ⟨0, 10⟩⟩⟩ (.function none false) [
        .scope ⟨"inner", ⟨⟨2, 0⟩, ⟨2, 20⟩⟩, ⟨⟨2, 5⟩, ⟨2, 10⟩⟩⟩ (.function none false) []],
      .scope ⟨"f", ⟨⟨5, 0⟩, ⟨5, 9⟩⟩, ⟨⟨5, 5⟩, ⟨5, 6⟩⟩⟩ (.function none false) []]
    diagnostics := []
    index := [("f", [⟨1, 2⟩, ⟨2, 14⟩, ⟨3, 2⟩])] })]
  imports _ := none
  inheritedFile _ _ := none
  workspace := none

def againItem (name : String) (range selection : Range) : HierarchyItem :=
  ⟨name, .function, ⟨"file", some "", "/a.pike", none, none⟩, range, selection, none⟩

def againCallee : HierarchyItem := againItem "f" ⟨⟨5, 0⟩, ⟨5, 9⟩⟩ ⟨⟨5, 5⟩, ⟨5, 6⟩⟩

/-- With room for one call its second place is lost: it comes after that of the other caller. -/
theorem calls_limited_again :
    (again.calls .incoming 1 againCallee).found =
      [⟨againItem "outer" ⟨⟨0, 0⟩, ⟨4, 1⟩⟩ ⟨⟨0, 5⟩, ⟨0, 10⟩⟩, [⟨⟨1, 2⟩, ⟨1, 3⟩⟩]⟩] ∧
    (again.calls .incoming 10 againCallee).found =
      [⟨againItem "outer" ⟨⟨0, 0⟩, ⟨4, 1⟩⟩ ⟨⟨0, 5⟩, ⟨0, 10⟩⟩, [⟨⟨1, 2⟩, ⟨1, 3⟩⟩, ⟨⟨3, 2⟩, ⟨3, 3⟩⟩]⟩,
        ⟨againItem "inner" ⟨⟨2, 0⟩, ⟨2, 20⟩⟩ ⟨⟨2, 5⟩, ⟨2, 10⟩⟩, [⟨⟨2, 14⟩, ⟨2, 15⟩⟩]⟩] ∧
    ∃ taken rest, again.sightings .incoming againCallee = taken ++ rest ∧
      ∃ c ∈ (again.calls .incoming 1 againCallee).found, ∃ x ∈ rest, c.item.key = x.1.key := by
  refine ⟨by decide +kernel, by decide +kernel, ?_⟩
  obtain ⟨all, taken, rest, hall, hsplit, -, hkept⟩ := calls_limited again .incoming againCallee 1
  have hroom : again.ShowsAll .incoming againCallee (again.calls .incoming 10 againCallee).found :=
    showsAll_of_room (by decide +kernel)
  obtain rfl := hall.unique hroom
  have hlost := mt hkept.mpr (by decide +kernel)
  push Not at hlost
  exact ⟨taken, rest, hsplit, hlost⟩

end Knowledge
end LanguageServer
