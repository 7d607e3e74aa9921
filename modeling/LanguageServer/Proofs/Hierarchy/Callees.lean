import LanguageServer.Proofs.Hierarchy.Gathering
import LanguageServer.Server.Hierarchies
import Mathlib.Data.List.Perm.Subperm

/-! What the calls out of an item are: the uses of names in its range, under what the names mean in
its document, as long as there is room. -/
namespace LanguageServer

theorem Url.le_iff {u v : Url} : u.le v ↔ u.text ≤ v.text := by
  rw [Url.le, Bool.not_eq_true', decide_eq_false_iff_not, String.not_lt]

theorem Url.le_refl (u : Url) : u.le u := Url.le_iff.mpr (String.le_refl u.text)

theorem Url.le_trans {u v w : Url} (huv : u.le v) (hvw : v.le w) : u.le w :=
  Url.le_iff.mpr (String.le_trans (Url.le_iff.mp huv) (Url.le_iff.mp hvw))

theorem Url.le_total (u v : Url) : u.le v || v.le u := by
  rw [Bool.or_eq_true, Url.le_iff, Url.le_iff]
  exact String.le_total u.text v.text

namespace Analysis

variable {a : Analysis} {name : String} {s : Symbol}

/-- The first symbol, in the order of the walk, that defines a name rather than only declaring it. -/
structure FirstDefines (a : Analysis) (name : String) (s : Symbol) : Prop where
  named : s.name = name
  defining : s.isDeclarationOnly = false
  first : ∃ before after, a.walk = before ++ s :: after ∧
    ∀ t ∈ before, t.name = name → t.isDeclarationOnly = true

theorem definition?_eq_some_iff : a.definition? name = some s ↔ a.FirstDefines name s := by
  have hfirst (t : Symbol) : (!(t.name = name && !t.isDeclarationOnly)) = true ↔
      (t.name = name → t.isDeclarationOnly = true) := by
    by_cases hname : t.name = name <;> simp [hname]
  rw [definition?, List.find?_eq_some_iff_append]
  simp only [Bool.and_eq_true, decide_eq_true_eq, Bool.not_eq_true', hfirst]
  exact ⟨fun ⟨⟨hname, hdef⟩, hwalk⟩ => ⟨hname, hdef, hwalk⟩, fun h => ⟨⟨h.named, h.defining⟩, h.first⟩⟩

theorem defines_iff : a.defines name ↔ ∃ s, a.FirstDefines name s := by
  simp only [defines, Option.isSome_iff_exists, definition?_eq_some_iff]

/-- All places of names, each as often as the index lists it. -/
def places (a : Analysis) : List (Position × String) :=
  a.index.flatMap fun (name, ps) => ps.map fun p => (p, name)

end Analysis

namespace Knowledge

variable {k : Knowledge} {limit : Nat} {item i j : HierarchyItem} {u dep : Url} {a : Analysis}
  {name : String}

/-- The latest analysis of a document defines a name. -/
def Defines (k : Knowledge) (u : Url) (name : String) : Prop :=
  ∃ a s, k.latest? u = some a ∧ a.FirstDefines name s

/-- What the latest analysis of a document defines first under a name can be called, and an item
shows it. -/
def Offers (k : Knowledge) (u : Url) (name : String) (i : HierarchyItem) : Prop :=
  ∃ a s, k.latest? u = some a ∧ a.FirstDefines name s ∧ s.isCallable ∧
    HierarchyItem.ofSymbol? u s = some i

/-- What a name means in a document: what it defines itself, or else what the first of its imports
offers that offers anything, or else what the first other document offers. -/
inductive Denotes (k : Knowledge) (u : Url) (name : String) (i : HierarchyItem) : Prop
  | here (h : k.Offers u name i)
  | imported {before after : List Url} {dep : Url} (hundefined : ¬k.Defines u name)
    (himports : k.importsOf u = before ++ dep :: after)
    (hfirst : ∀ d ∈ before, ∀ j, ¬k.Offers d name j) (h : k.Offers dep name i)
  | elsewhere {d : Url} (hundefined : ¬k.Defines u name)
    (himports : ∀ dep ∈ k.importsOf u, ∀ j, ¬k.Offers dep name j) (hother : d ≠ u)
    (h : k.Offers d name i) (hfirst : ∀ e ≠ u, ∀ j, k.Offers e name j → d.le e)

/-- Every document is analysed once, in the order of the URLs. -/
structure IsSettled (k : Knowledge) : Prop where
  documents : k.urls.Nodup
  sorted : k.urls.Pairwise fun u v => u.le v

theorem callableIn?_eq_some_iff : callableIn? name (u, a) = some i ↔
    ∃ s, a.FirstDefines name s ∧ s.isCallable ∧ HierarchyItem.ofSymbol? u s = some i := by
  simp only [callableIn?, Option.bind_eq_some_iff, Analysis.definition?_eq_some_iff,
    HierarchyItem.ofCallable?, Option.ite_none_right_eq_some]

theorem offers_iff : k.Offers u name i ↔
    ((k.latest? u).bind fun a => callableIn? name (u, a)) = some i := by
  simp only [Option.bind_eq_some_iff, callableIn?_eq_some_iff]
  exact ⟨fun ⟨a, s, ha, h⟩ => ⟨a, ha, s, h⟩, fun ⟨a, ha, s, h⟩ => ⟨a, s, ha, h⟩⟩

theorem forall_not_offers_iff : (∀ i, ¬k.Offers u name i) ↔
    ((k.latest? u).bind fun a => callableIn? name (u, a)) = none := by
  simp only [offers_iff, Option.eq_none_iff_forall_ne_some, ne_eq]

theorem Offers.defines (h : k.Offers u name i) : k.Defines u name := by
  obtain ⟨a, s, ha, hs, -⟩ := h
  exact ⟨a, s, ha, hs⟩

theorem Offers.url_eq (h : k.Offers u name i) : i.url = u := by
  obtain ⟨a, s, -, -, -, hi⟩ := h
  exact (HierarchyItem.of_ofSymbol? hi).2.1

theorem defines_iff (ha : k.latest? u = some a) : k.Defines u name ↔ a.defines name := by
  simp [Defines, ha, Analysis.defines_iff]

theorem IsSettled.mem_others (h : k.IsSettled) {d : Url × Analysis} :
    d ∈ k.others u ↔ d.1 ≠ u ∧ k.latest? d.1 = some d.2 := by
  rw [others, List.mem_filter, decide_eq_true_eq, and_comm, ← lookup_eq_some_iff h.documents, latest?]

/-- Among the other documents the first one that offers a name is the first by URL. -/
theorem IsSettled.findSome?_others (h : k.IsSettled) :
    (k.others u).findSome? (callableIn? name) = some i →
      ∃ d ≠ u, k.Offers d name i ∧ ∀ e ≠ u, ∀ j, k.Offers e name j → d.le e := by
  intro hi
  obtain ⟨before, d, after, hsplit, hd, hbefore⟩ := List.findSome?_eq_some_iff.mp hi
  have hmem : d ∈ k.others u := by simp [hsplit]
  obtain ⟨hne, hlatest⟩ := h.mem_others.mp hmem
  refine ⟨d.1, hne, offers_iff.mpr (by rwa [hlatest, Option.bind_some]), fun e he j hoffers => ?_⟩
  obtain ⟨b, s, hb, hs⟩ := hoffers
  have he' : (e, b) ∈ before ++ d :: after := hsplit ▸ h.mem_others.mpr ⟨he, hb⟩
  have hsorted : (before ++ d :: after).Pairwise fun d e => d.1.le e.1 := by
    rw [← hsplit]
    exact (List.pairwise_map.mp h.sorted).sublist List.filter_sublist
  rw [List.mem_append, List.mem_cons] at he'
  rcases he' with he' | rfl | he'
  · have hcallable : callableIn? name (e, b) = some j := callableIn?_eq_some_iff.mpr ⟨s, hs⟩
    rw [hbefore _ he'] at hcallable
    cases hcallable
  · exact Url.le_refl e
  · exact (List.pairwise_cons.mp (List.pairwise_append.mp hsorted).2.1).1 (e, b) he'

/-- What a name is resolved to is what it means. -/
theorem IsSettled.denotes_of_callable? (h : k.IsSettled) (ha : k.latest? u = some a)
    (hi : k.callable? name u a = some i) : k.Denotes u name i := by
  unfold callable? at hi
  split at hi
  · exact .here (offers_iff.mpr (by rwa [ha, Option.bind_some]))
  · rename_i hdefines
    rw [← defines_iff ha] at hdefines
    rcases Option.or_eq_some_iff.mp hi with hi | ⟨hnone, hi⟩
    · obtain ⟨before, dep, after, hsplit, hdep, hbefore⟩ := List.findSome?_eq_some_iff.mp hi
      exact .imported hdefines hsplit (fun d hd => forall_not_offers_iff.mpr (hbefore d hd))
        (offers_iff.mpr hdep)
    · obtain ⟨d, hother, hoffers, hfirst⟩ := h.findSome?_others hi
      exact .elsewhere hdefines
        (fun dep hdep => forall_not_offers_iff.mpr (List.findSome?_eq_none_iff.mp hnone dep hdep))
        hother hoffers hfirst

/-- A name that means something is resolved. -/
theorem IsSettled.isSome_callable? (h : k.IsSettled) (ha : k.latest? u = some a)
    (hi : k.Denotes u name i) : (k.callable? name u a).isSome := by
  have hlocal (hoffers : k.Offers u name i) : callableIn? name (u, a) = some i := by
    rwa [offers_iff, ha, Option.bind_some] at hoffers
  unfold callable?
  split
  · rename_i hdefines
    rw [← defines_iff ha] at hdefines
    cases hi with
    | here hoffers => simp [hlocal hoffers]
    | imported hundefined _ _ _ => exact absurd hdefines hundefined
    | elsewhere hundefined _ _ _ _ => exact absurd hdefines hundefined
  · rename_i hdefines
    rw [← defines_iff ha] at hdefines
    rw [Option.isSome_or, Bool.or_eq_true]
    cases hi with
    | here hoffers => exact absurd hoffers.defines hdefines
    | @imported _ _ dep _ himports _ hoffers =>
      refine .inl (List.findSome?_isSome_iff.mpr ⟨dep, by simp [himports], ?_⟩)
      simp [offers_iff.mp hoffers]
    | @elsewhere d _ _ hother hoffers _ =>
      obtain ⟨b, s, hb, hs⟩ := hoffers
      refine .inr (List.findSome?_isSome_iff.mpr ⟨(d, b), h.mem_others.mpr ⟨hother, hb⟩, ?_⟩)
      simp [callableIn?_eq_some_iff.mpr ⟨s, hs⟩]

theorem IsSettled.isSome_callable?_iff (h : k.IsSettled) (ha : k.latest? u = some a) :
    (k.callable? name u a).isSome ↔ ∃ i, k.Denotes u name i := by
  refine ⟨fun hi => ?_, fun ⟨i, hi⟩ => h.isSome_callable? ha hi⟩
  obtain ⟨i, hi⟩ := Option.isSome_iff_exists.mp hi
  exact ⟨i, h.denotes_of_callable? ha hi⟩

/-- What a name means is offered by the document where it lies. -/
theorem Denotes.offers (h : k.Denotes u name i) : k.Offers i.url name i := by
  cases h with
  | here h => exact h.url_eq.symm ▸ h
  | imported _ _ _ h => exact h.url_eq.symm ▸ h
  | elsewhere _ _ _ h _ => exact h.url_eq.symm ▸ h

/-- An item lies in the document that asks if and only if that document defines the name. -/
theorem Denotes.url_eq_iff (h : k.Denotes u name i) : i.url = u ↔ k.Defines u name := by
  cases h with
  | here h => exact iff_of_true h.url_eq h.defines
  | imported hundefined _ _ h =>
    exact iff_of_false (fun hu => hundefined (hu ▸ h.url_eq ▸ h.defines)) hundefined
  | elsewhere hundefined _ hother h _ =>
    exact iff_of_false (fun hu => hother (h.url_eq.symm.trans hu)) hundefined

section Sites

variable {x y z : Position × String}

theorem siteLe_iff : siteLe x y ↔ x.1 = y.1 ∧ x.2 ≤ y.2 ∨ x.1 ≠ y.1 ∧ x.1 ≤ y.1 := by
  unfold siteLe
  split
  · rename_i hp
    rw [Bool.not_eq_true', decide_eq_false_iff_not, String.not_lt]
    exact ⟨fun hle => .inl ⟨hp, hle⟩, fun h => (h.resolve_right fun h => h.1 hp).2⟩
  · rename_i hp
    exact ⟨fun hle => .inr ⟨hp, hle⟩, fun h => (h.resolve_left fun h => hp h.1).2⟩

theorem le_of_siteLe (h : siteLe x y) : x.1 ≤ y.1 := by
  obtain ⟨hp, -⟩ | ⟨-, hp⟩ := siteLe_iff.mp h
  · rw [hp, Position.le_iff]
    omega
  · exact hp

theorem siteLe_trans (hxy : siteLe x y) (hyz : siteLe y z) : siteLe x z := by
  have hxz := Position.le_trans (le_of_siteLe hxy) (le_of_siteLe hyz)
  by_cases hp : x.1 = z.1
  · have hxy' : x.1 = y.1 := Position.le_antisymm (le_of_siteLe hxy) (hp ▸ le_of_siteLe hyz)
    rw [siteLe_iff] at *
    have hyz' : y.1 = z.1 := hxy'.symm.trans hp
    simp only [hxy', hyz', ne_eq, not_true_eq_false, true_and, false_and, or_false] at *
    exact String.le_trans hxy hyz
  · exact siteLe_iff.mpr (.inr ⟨hp, hxz⟩)

theorem siteLe_total (x y : Position × String) : siteLe x y || siteLe y x := by
  rw [Bool.or_eq_true, siteLe_iff, siteLe_iff]
  by_cases hp : x.1 = y.1
  · simpa [hp] using String.le_total x.2 y.2
  · simpa [hp, Ne.symm hp] using Position.le_total x.1 y.1

/-- What is seen inside an item is seen in the order of positions. -/
theorem pairwise_callees (k : Knowledge) (item : HierarchyItem) :
    (k.callees item).Pairwise fun x y => x.2.start ≤ y.2.start := by
  unfold callees
  split
  · rename_i a ha
    refine List.pairwise_filterMap.mpr ?_
    have hsorted : (usesIn a item).Pairwise fun x y => siteLe x y := by
      refine List.pairwise_mergeSort ?_ siteLe_total _
      exact fun _ _ _ => siteLe_trans
    refine hsorted.imp ?_
    rintro ⟨p, name⟩ ⟨q, name'⟩ hle x hx y hy
    obtain ⟨_, -, rfl⟩ := Option.map_eq_some_iff.mp hx
    obtain ⟨_, -, rfl⟩ := Option.map_eq_some_iff.mp hy
    exact le_of_siteLe hle
  · exact .nil

end Sites

/-- A list put into groups by distinct keys that cover it keeps every element. -/
theorem flatMap_filter_perm {α κ : Type} [DecidableEq κ] (key : α → κ) {keys : List κ} {xs : List α}
    (hkeys : keys.Nodup) (hcover : ∀ x ∈ xs, key x ∈ keys) :
    (keys.flatMap fun j => xs.filter fun x => key x = j).Perm xs := by
  induction keys generalizing xs with
  | nil =>
    obtain rfl : xs = [] := List.eq_nil_iff_forall_not_mem.mpr fun x hx => by simpa using hcover x hx
    exact .nil
  | cons j keys ih =>
    obtain ⟨hj, hkeys⟩ := List.nodup_cons.mp hkeys
    let others := xs.filter fun x => !(key x = j : Bool)
    have hothers : (keys.flatMap fun i => xs.filter fun x => key x = i) =
        keys.flatMap fun i => others.filter fun x => key x = i := by
      refine List.flatMap_congr fun i hi => ?_
      rw [List.filter_filter]
      refine List.filter_congr fun x _ => ?_
      by_cases hx : key x = i
      · simp [hx, ne_of_mem_of_not_mem hi hj]
      · simp [hx]
    rw [List.flatMap_cons, hothers]
    refine ((ih hkeys fun x hx => ?_).append_left _).trans (List.filter_append_perm _ xs)
    obtain ⟨hx, hne⟩ := List.mem_filter.mp hx
    exact (List.mem_cons.mp (hcover x hx)).resolve_left (by simpa using hne)

/-- The places listed with the names of their items are those that were seen. -/
theorem Gathered.places_perm {seen : List Sighting} {calls : List Call} (h : Gathered seen calls)
    (hkeys : (calls.map fun c => c.item.key).Nodup) :
    (calls.flatMap fun c => c.sites.map fun r => (r, c.item.name)).Perm
      (seen.map fun x => (x.2, x.1.name)) := by
  have hcall (c : Call) (hc : c ∈ calls) : (c.sites.map fun r => (r, c.item.name)) =
      (seen.filter fun x => x.1.key = c.item.key).map fun x => (x.2, x.1.name) := by
    rw [h.sites c hc, placesOf, List.map_map]
    refine List.map_congr_left fun x hx => ?_
    have hkey : x.1.key = c.item.key := by simpa using (List.mem_filter.mp hx).2
    exact Prod.ext rfl (congrArg HierarchyItem.Key.name hkey).symm
  have hcover : ∀ x ∈ seen, x.1.key ∈ calls.map fun c => c.item.key := by
    intro x hx
    obtain ⟨c, hc, hck⟩ := h.keys x hx
    exact List.mem_map.mpr ⟨c, hc, hck⟩
  rw [List.flatMap_congr hcall, ← List.map_flatMap]
  refine List.Perm.map _ ?_
  simpa only [List.flatMap_map] using flatMap_filter_perm (fun x : Sighting => x.1.key) hkeys hcover

open Classical in
/-- The places of names in the range of an item, each as often as the index lists it, that declare
nothing and whose names mean something. -/
noncomputable def placesCalled (k : Knowledge) (item : HierarchyItem) (a : Analysis) :
    List (Position × String) :=
  a.places.filter fun (p, name) =>
    item.range.contains p ∧ p ∉ a.declared ∧ ∃ i, k.Denotes item.url name i

/-- What a filter keeps, seen through the values it is kept for. -/
theorem map_filterMap_eq {α β γ : Type} {f : α → Option β} {g : β → γ} {h : α → γ}
    (hf : ∀ x y, f x = some y → g y = h x) (xs : List α) :
    (xs.filterMap f).map g = (xs.filter fun x => (f x).isSome).map h := by
  induction xs with
  | nil => rfl
  | cons x xs ih =>
    cases hx : f x with
    | none => simp [hx, ih]
    | some y => simp [hx, ih, hf x y hx]

/-- What is seen inside an item is at the places called. -/
theorem IsSettled.callees_perm (h : k.IsSettled) (ha : k.latest? item.url = some a) :
    ((k.callees item).map fun x => (x.2, x.1.name)).Perm
      ((k.placesCalled item a).map fun (p, name) => (site p name, name)) := by
  have hseen (x : Position × String) (y : Sighting) (hy : (k.callable? x.2 item.url a).map
      (fun callee => (callee, site x.1 x.2)) = some y) : (y.2, y.1.name) = (site x.1 x.2, x.2) := by
    obtain ⟨callee, hcallee, rfl⟩ := Option.map_eq_some_iff.mp hy
    rw [name_of_callable? hcallee]
  have hplaces : k.placesCalled item a = (a.places.filter fun x =>
      item.range.contains x.1 && !a.declared.contains x.1).filter fun x =>
        ((k.callable? x.2 item.url a).map fun callee => (callee, site x.1 x.2)).isSome := by
    rw [List.filter_filter]
    refine List.filter_congr fun x _ => Bool.eq_iff_iff.mpr ?_
    simp only [decide_eq_true_eq, Option.isSome_map, Bool.and_eq_true, Bool.not_eq_true',
      List.contains_eq_mem, decide_eq_false_iff_not, h.isSome_callable?_iff ha]
    rw [← and_assoc, and_comm]
  have hcallees : k.callees item = (usesIn a item).filterMap fun x =>
      (k.callable? x.2 item.url a).map fun callee => (callee, site x.1 x.2) := by
    rw [callees, ha]
  rw [hcallees, map_filterMap_eq hseen, hplaces]
  exact ((List.mergeSort_perm _ siteLe).filter _).map _

/-- The calls out of an item as they are listed, with the latest analysis of its document. -/
structure ListsCallees (k : Knowledge) (limit : Nat) (item : HierarchyItem) (a : Analysis)
    (found : List Call) : Prop where
  offered : ∀ c ∈ found, k.Offers c.item.url c.item.name c.item
  denotes : ∀ c ∈ found, k.Denotes item.url c.item.name c.item
  home : ∀ c ∈ found, c.item.url = item.url ↔ ∃ s, a.FirstDefines c.item.name s
  keys : (found.map fun c => c.item.key).Nodup
  few : found.length ≤ limit
  places : found.length < limit →
    (found.flatMap fun c => c.sites.map fun r => (r, c.item.name)).Perm
      ((k.placesCalled item a).map fun (p, name) => (site p name, name))
  ordered : ∀ c ∈ found, c.sites.Pairwise fun r s => r.start ≤ s.start
  silent : ∀ name, (∀ i, ¬k.Denotes item.url name i) → ∀ c ∈ found, c.item.name ≠ name
  uncallable : ∀ name s, a.FirstDefines name s → s.isCallable = false →
    ∀ c ∈ found, c.item.name ≠ name

/-- What a name means in a document that defines it can be called. -/
theorem Denotes.isCallable (h : k.Denotes u name i) (ha : k.latest? u = some a) {s : Symbol}
    (hs : a.FirstDefines name s) : s.isCallable := by
  have hdefines : k.Defines u name := ⟨a, s, ha, hs⟩
  cases h with
  | here h =>
    obtain ⟨b, t, hb, ht, hcallable, -⟩ := h
    obtain rfl : a = b := Option.some.inj (ha.symm.trans hb)
    rw [← Analysis.definition?_eq_some_iff] at hs ht
    exact Option.some.inj (hs.symm.trans ht) ▸ hcallable
  | imported hundefined _ _ _ => exact absurd hdefines hundefined
  | elsewhere hundefined _ _ _ _ => exact absurd hdefines hundefined

/-- What a server knows is settled, in whatever order its analyses were kept. -/
theorem isSettled_knowledge (now : Instant) (workspace : Option (List Url)) (s : Server)
    (hs : s.analyses.entries.keys.Nodup) : (s.knowledge now workspace).IsSettled where
  documents := by
    have hperm := List.mergeSort_perm (s.analyses.entries.pairs.map fun e => (e.1, e.2.analysis))
      fun x y => x.1.le y.1
    refine (hperm.map (·.1)).nodup_iff.mpr ?_
    simpa [Table.keys, Function.comp_def] using hs
  sorted := by
    have hsorted : s.analyses.settled.Pairwise fun x y => x.1.le y.1 := by
      refine List.pairwise_mergeSort ?_ ?_ _
      · exact fun x y z => Url.le_trans
      · exact fun x y => Url.le_total x.1 y.1
    exact List.pairwise_map.mpr hsorted

/-- The calls out of an item are the places called in its range, each under what its name means
there; a document without an analysis calls nothing. -/
theorem outgoing_lists (h : k.IsSettled) (limit : Nat) (item : HierarchyItem) :
    (k.latest? item.url = none → (k.outgoing limit item).found = []) ∧
      ∀ a, k.latest? item.url = some a → k.ListsCallees limit item a (k.outgoing limit item).found := by
  refine ⟨fun hnone => by rw [outgoing, hnone], fun a ha => ?_⟩
  obtain ⟨taken, hfirst, hgathered, hall⟩ := exists_gathered limit (k.callees item)
  rw [← found_outgoing] at hgathered hall
  have hkeys : ((k.outgoing limit item).found.map fun c => c.item.key).Nodup :=
    found_outgoing ▸ nodup_gather List.nodup_nil
  have hdenotes : ∀ c ∈ (k.outgoing limit item).found, k.Denotes item.url c.item.name c.item := by
    intro c hc
    obtain ⟨r, hr⟩ := hgathered.items c hc
    obtain ⟨b, p, name, hb, -, huse, -⟩ := mem_callees.mp (hfirst.subset hr)
    have hcallee := h.denotes_of_callable? hb huse.means
    rwa [← name_of_callable? huse.means] at hcallee
  have hsilent (name : String) (hnone : ∀ i, ¬k.Denotes item.url name i) :
      ∀ c ∈ (k.outgoing limit item).found, c.item.name ≠ name := by
    rintro c hc rfl
    exact hnone c.item (hdenotes c hc)
  refine ⟨fun c hc => (hdenotes c hc).offers, hdenotes, fun c hc => ?_, hkeys, ?_, fun hroom => ?_,
    fun c hc => ?_, hsilent, ?_⟩
  · rw [(hdenotes c hc).url_eq_iff, defines_iff ha, Analysis.defines_iff]
  · exact found_outgoing ▸ length_gather_le (Nat.zero_le limit)
  · exact (hgathered.places_perm hkeys).trans (hall hroom ▸ h.callees_perm ha)
  · rw [hgathered.sites c hc, placesOf, List.pairwise_map]
    exact (pairwise_callees k item).sublist (List.filter_sublist.trans hfirst.sublist)
  · intro name s hs hcallable
    refine hsilent name fun i hi => ?_
    rw [hi.isCallable ha hs] at hcallable
    cases hcallable

section Village

def villageUrl (path : String) : Url := ⟨"file", some "", path, none, none⟩

def villageLine (n : UInt32) : Range := ⟨⟨n, 0⟩, ⟨n, 9⟩⟩

def villageFunction (name : String) (n : UInt32) : Symbol :=
  .scope ⟨name, villageLine n, villageLine n⟩ (.function none false) []

/-- A document with a function `caller`, which uses a function and a variable of the document and
two names that others define. -/
def villageHome : Analysis where
  symbols := [villageFunction "caller" 0, villageFunction "near" 9,
    .leaf ⟨"own", villageLine 10, villageLine 10⟩ (.variable none)]
  diagnostics := []
  index := [("near", [⟨0, 1⟩]), ("both", [⟨0, 2⟩]), ("far", [⟨0, 3⟩]), ("own", [⟨0, 4⟩])]

/-- That document between two others. It imports the second one. -/
def village : Knowledge where
  analyses := [
    (villageUrl "/a.pike",
      ⟨[villageFunction "far" 0, villageFunction "both" 1, villageFunction "own" 2], [], []⟩),
    (villageUrl "/b.pike", villageHome),
    (villageUrl "/c.pike", ⟨[villageFunction "both" 0], [], []⟩)]
  imports u := if u.path = "/b.pike" then
    some ⟨0, [⟨.inheritProgram, "c.pike", some ⟨"/c.pike"⟩, none⟩]⟩ else none
  inheritedFile _ _ := none
  workspace := none

def villager : HierarchyItem :=
  ⟨"caller", .function, villageUrl "/b.pike", villageLine 0, villageLine 0, none⟩

/-- A name of the document itself is found there, one that the import defines is found in it although
another document comes first, and the variable is no callable elsewhere either. -/
theorem outgoing_lists_village : village.IsSettled ∧
    (village.outgoing 10 villager).found.map (fun c => (c.item.url.path, c.item.name, c.sites)) =
      [("/b.pike", "near", [⟨⟨0, 1⟩, ⟨0, 5⟩⟩]), ("/c.pike", "both", [⟨⟨0, 2⟩, ⟨0, 6⟩⟩]),
        ("/a.pike", "far", [⟨⟨0, 3⟩, ⟨0, 6⟩⟩])] ∧
    village.ListsCallees 10 villager villageHome (village.outgoing 10 villager).found := by
  have h : village.IsSettled := ⟨by decide +kernel, by decide +kernel⟩
  have hlatest : village.latest? villager.url = some villageHome := rfl
  have huses : usesIn villageHome villager =
      [(⟨0, 1⟩, "near"), (⟨0, 2⟩, "both"), (⟨0, 3⟩, "far"), (⟨0, 4⟩, "own")] := by
    refine Eq.trans (List.mergeSort_of_pairwise ?_) ?_
    · decide +kernel
    · decide +kernel
  refine ⟨h, ?_, (outgoing_lists h 10 villager).2 villageHome hlatest⟩
  rw [outgoing, hlatest]
  dsimp only
  rw [huses]
  decide +kernel

end Village

end Knowledge
end LanguageServer
