import LanguageServer.Hierarchy.Tree
import LanguageServer.Proofs.Symbol.Nesting

/-! Lists of calls as what is gathered from sightings of items at places: calls out of an item are
sightings of what is called in its range, calls of an item are sightings of what encloses its uses. -/
namespace LanguageServer

/-- An item at the other end of a call, and the place of the call. -/
abbrev Sighting := HierarchyItem × Range

/-- Whether calls are made from a symbol: it can be called, and it is defined where it stands. -/
def Symbol.isCaller (s : Symbol) : Bool := s.isCallable && !s.isDeclarationOnly

namespace HierarchyItem

variable {u : Url} {s : Symbol} {i : HierarchyItem}

/-- The item of a symbol shows what the symbol shows. -/
theorem of_ofSymbol? (h : ofSymbol? u s = some i) :
    i.name = s.name ∧ i.url = u ∧ i.range = s.range ∧ i.selection = s.selection := by
  unfold ofSymbol? at h
  split at h <;> cases h <;> exact ⟨rfl, rfl, rfl, rfl⟩

theorem key_of_ofSymbol? (h : ofSymbol? u s = some i) : i.key = ⟨u, s.selection.start, s.name⟩ := by
  obtain ⟨hname, hurl, -, hselection⟩ := of_ofSymbol? h
  rw [key, hname, hurl, hselection]

theorem ofSymbol?_of_isCallable (h : s.isCallable) : ∃ i, ofSymbol? u s = some i := by
  unfold Symbol.isCallable at h
  split at h
  · exact ⟨_, rfl⟩
  · exact ⟨_, rfl⟩
  · cases h

end HierarchyItem

namespace Knowledge

variable {k : Knowledge} {limit : Nat} {item callee : HierarchyItem} {u : Url} {a : Analysis}

/-- The calls of the sightings, up to the first that is one call too many, and whether there is
such a one. -/
def gather (limit : Nat) : List Sighting → List Call → List Call × Bool
  | [], calls => (calls, false)
  | (i, r) :: rest, calls =>
    match addSite limit i r calls with
    | some calls => gather limit rest calls
    | none => (calls, true)

/-- What is seen from inside an item. -/
def callees (k : Knowledge) (item : HierarchyItem) : List Sighting :=
  match k.latest? item.url with
  | some a => (usesIn a item).filterMap fun (p, name) =>
      (k.callable? name item.url a).map fun callee => (callee, site p name)
  | none => []

/-- What encloses the uses of an item in a document, if its name means the item there. -/
def callersIn (k : Knowledge) (item : HierarchyItem) (d : Url × Analysis) : List Sighting :=
  if (k.callable? item.name d.1 d.2).map HierarchyItem.key = some item.key then
    ((d.2.occurrences item.name).filter fun p => !d.2.declared.contains p).filterMap fun p =>
      ((d.2.innermost? p Symbol.isCaller).bind (HierarchyItem.ofSymbol? d.1)).map
        fun caller => (caller, site p item.name)
  else []

/-- What encloses the uses of an item. -/
def callers (k : Knowledge) (item : HierarchyItem) : List Sighting :=
  k.analyses.flatMap (k.callersIn item)

section Gather

variable {i : HierarchyItem} {r : Range} {seen more : List Sighting} {calls calls' : List Call}
  {full : Bool}

/-- A place is added to the call of its item, or makes a new call while there is room. -/
theorem addSite_eq_some (h : addSite limit i r calls = some calls') :
    (∃ c ∈ calls, c.item.key = i.key) ∧
        calls' = calls.map (fun c => if c.item.key = i.key then { c with sites := c.sites ++ [r] } else c) ∨
      (∀ c ∈ calls, c.item.key ≠ i.key) ∧ calls.length < limit ∧ calls' = calls ++ [⟨i, [r]⟩] := by
  unfold addSite at h
  split at h
  · rename_i hany
    simp only [List.any_eq_true, decide_eq_true_eq] at hany
    exact .inl ⟨hany, (Option.some.inj h).symm⟩
  · rename_i hany
    simp only [List.any_eq_true, decide_eq_true_eq, not_exists, not_and] at hany
    split at h
    · cases h
    · exact .inr ⟨hany, by omega, (Option.some.inj h).symm⟩

theorem addSite_eq_none (h : addSite limit i r calls = none) : limit ≤ calls.length := by
  unfold addSite at h
  split at h
  · cases h
  · split at h
    · assumption
    · cases h

/-- What is one call too many is of an item that is not there. -/
theorem ne_of_addSite_eq_none (h : addSite limit i r calls = none) :
    ∀ c ∈ calls, c.item.key ≠ i.key := by
  unfold addSite at h
  split at h
  · cases h
  · rename_i hany
    simpa using hany

/-- A place leaves the items there as they are, and its own comes last if it is new. -/
theorem items_addSite (h : addSite limit i r calls = some calls') :
    calls'.map Call.item = calls.map Call.item ∨
      (∀ c ∈ calls, c.item.key ≠ i.key) ∧ calls.length < limit ∧
        calls'.map Call.item = calls.map Call.item ++ [i] := by
  obtain ⟨-, rfl⟩ | ⟨hnew, hroom, rfl⟩ := addSite_eq_some h
  · refine .inl ?_
    rw [List.map_map]
    refine List.map_congr_left fun c _ => ?_
    dsimp only [Function.comp_apply]
    split <;> rfl
  · exact .inr ⟨hnew, hroom, by simp⟩

theorem length_addSite (h : addSite limit i r calls = some calls') :
    calls'.length ≤ calls.length + 1 := by
  obtain ⟨-, rfl⟩ | ⟨-, -, rfl⟩ := addSite_eq_some h <;> simp

/-- What fits stays as it is when there is more room. -/
theorem addSite_mono {limit' : Nat} (hle : limit ≤ limit') (h : addSite limit i r calls = some calls') :
    addSite limit' i r calls = some calls' := by
  unfold addSite at *
  split
  · rwa [if_pos ‹_›] at h
  · rw [if_neg ‹_›] at h
    split at h
    · cases h
    · rwa [if_neg (by omega)]

theorem gather_append :
    gather limit (seen ++ more) calls =
      if (gather limit seen calls).2 then gather limit seen calls
      else gather limit more (gather limit seen calls).1 := by
  induction seen generalizing calls with
  | nil => simp [gather]
  | cons x seen ih =>
    rw [List.cons_append, gather, gather]
    cases addSite limit x.1 x.2 calls with
    | none => rfl
    | some calls => exact ih

/-- A list is cut short only where it has as many calls as allowed. -/
theorem le_length_gather (h : (gather limit seen calls).2 = true) :
    limit ≤ (gather limit seen calls).1.length := by
  induction seen generalizing calls with
  | nil => cases h
  | cons x seen ih =>
    rw [gather] at h ⊢
    cases hadd : addSite limit x.1 x.2 calls with
    | none => exact addSite_eq_none hadd
    | some calls =>
      rw [hadd] at h
      exact ih h

/-- What was not cut short stays as it is when there is more room. -/
theorem gather_mono {limit' : Nat} (hle : limit ≤ limit') (h : (gather limit seen calls).2 = false) :
    gather limit' seen calls = gather limit seen calls := by
  induction seen generalizing calls with
  | nil => rfl
  | cons x seen ih =>
    rw [gather] at h
    rw [gather, gather]
    cases hadd : addSite limit x.1 x.2 calls with
    | none => simp [hadd] at h
    | some calls =>
      rw [hadd] at h
      rw [addSite_mono hle hadd]
      exact ih h

/-- Nothing is cut short where there is room for every sighting. -/
theorem gather_whole (h : calls.length + seen.length ≤ limit) : (gather limit seen calls).2 = false := by
  induction seen generalizing calls with
  | nil => rfl
  | cons x seen ih =>
    rw [List.length_cons] at h
    rw [gather]
    cases hadd : addSite limit x.1 x.2 calls with
    | none =>
      have := addSite_eq_none hadd
      omega
    | some calls =>
      have := length_addSite hadd
      exact ih (by omega)

/-- More sightings leave the items there as they are and come after them. -/
theorem items_gather (limit : Nat) (seen : List Sighting) (calls : List Call) :
    calls.map Call.item <+: (gather limit seen calls).1.map Call.item := by
  induction seen generalizing calls with
  | nil => exact List.prefix_rfl
  | cons x seen ih =>
    rw [gather]
    cases hadd : addSite limit x.1 x.2 calls with
    | none => exact List.prefix_rfl
    | some next =>
      refine List.IsPrefix.trans ?_ (ih next)
      obtain hitems | ⟨-, -, hitems⟩ := items_addSite hadd
      · exact hitems ▸ List.prefix_rfl
      · exact hitems ▸ List.prefix_append ..

/-- No more calls are listed than allowed. -/
theorem length_gather_le (h : calls.length ≤ limit) : (gather limit seen calls).1.length ≤ limit := by
  induction seen generalizing calls with
  | nil => exact h
  | cons x seen ih =>
    rw [gather]
    cases hadd : addSite limit x.1 x.2 calls with
    | none => exact h
    | some next =>
      refine ih ?_
      rw [← List.length_map Call.item] at h ⊢
      obtain hitems | ⟨-, hroom, hitems⟩ := items_addSite hadd
      · rwa [hitems]
      · rw [hitems, List.length_append, List.length_map, List.length_singleton]
        omega

/-- No two calls have an item of one key. -/
theorem nodup_gather (h : (calls.map fun c => c.item.key).Nodup) :
    ((gather limit seen calls).1.map fun c => c.item.key).Nodup := by
  have hkeys (calls : List Call) : (calls.map fun c => c.item.key) =
      (calls.map Call.item).map HierarchyItem.key := by rw [List.map_map]; rfl
  induction seen generalizing calls with
  | nil => exact h
  | cons x seen ih =>
    rw [gather]
    cases hadd : addSite limit x.1 x.2 calls with
    | none => exact h
    | some next =>
      refine ih ?_
      rw [hkeys] at h ⊢
      obtain hitems | ⟨hnew, -, hitems⟩ := items_addSite hadd
      · rwa [hitems]
      · rw [hitems, List.map_append]
        refine List.nodup_append.mpr ⟨h, by simp, ?_⟩
        simpa using hnew

/-- The places where an item of a key was seen. -/
def placesOf (seen : List Sighting) (key : HierarchyItem.Key) : List Range :=
  (seen.filter fun x => x.1.key = key).map (·.2)

theorem mem_placesOf {key : HierarchyItem.Key} :
    r ∈ placesOf seen key ↔ ∃ i, (i, r) ∈ seen ∧ i.key = key := by
  simp [placesOf]

theorem placesOf_append (key : HierarchyItem.Key) :
    placesOf (seen ++ more) key = placesOf seen key ++ placesOf more key := by
  simp [placesOf]

theorem placesOf_singleton (key : HierarchyItem.Key) :
    placesOf [(i, r)] key = if i.key = key then [r] else [] := by
  by_cases h : i.key = key <;> simp [placesOf, h]

/-- Calls that show what was seen: items that were seen, each with all places where an item of its
key was seen, and every key that was seen. -/
structure Gathered (seen : List Sighting) (calls : List Call) : Prop where
  items : ∀ c ∈ calls, ∃ r, (c.item, r) ∈ seen
  sites : ∀ c ∈ calls, c.sites = placesOf seen c.item.key
  keys : ∀ x ∈ seen, ∃ c ∈ calls, c.item.key = x.1.key

theorem Gathered.nil : Gathered [] [] := ⟨by simp, by simp, by simp⟩

/-- Every sighting is in one of the calls. -/
theorem Gathered.exists_call (h : Gathered seen calls) (hx : (i, r) ∈ seen) :
    ∃ c ∈ calls, c.item.key = i.key ∧ r ∈ c.sites := by
  obtain ⟨c, hc, hck⟩ := h.keys _ hx
  exact ⟨c, hc, hck, h.sites c hc ▸ mem_placesOf.mpr ⟨i, hx, hck.symm⟩⟩

/-- A place is added where its item was seen before. -/
theorem Gathered.join (h : Gathered seen calls) (hold : ∃ c ∈ calls, c.item.key = i.key) :
    Gathered (seen ++ [(i, r)]) (calls.map fun c =>
      if c.item.key = i.key then { c with sites := c.sites ++ [r] } else c) := by
  have hitem (c : Call) : (if c.item.key = i.key then { c with sites := c.sites ++ [r] }
      else c).item = c.item := by split <;> rfl
  refine ⟨?_, ?_, ?_⟩
  · intro c hc
    obtain ⟨e, he, rfl⟩ := List.mem_map.mp hc
    obtain ⟨r', hr'⟩ := h.items e he
    exact ⟨r', List.mem_append_left _ (by rwa [hitem])⟩
  · intro c hc
    obtain ⟨e, he, rfl⟩ := List.mem_map.mp hc
    rw [hitem, placesOf_append, placesOf_singleton, ← h.sites e he]
    by_cases hek : e.item.key = i.key
    · rw [if_pos hek, if_pos hek.symm]
    · rw [if_neg hek, if_neg (Ne.symm hek), List.append_nil]
  · intro x hx
    obtain ⟨c, hc, hck⟩ : ∃ c ∈ calls, c.item.key = x.1.key := by
      rcases List.mem_append.mp hx with hx | hx
      · exact h.keys x hx
      · exact List.mem_singleton.mp hx ▸ hold
    exact ⟨_, List.mem_map_of_mem hc, by rwa [hitem]⟩

/-- An item that was not seen before makes a call of its own. -/
theorem Gathered.push (h : Gathered seen calls) (hnew : ∀ c ∈ calls, c.item.key ≠ i.key) :
    Gathered (seen ++ [(i, r)]) (calls ++ [⟨i, [r]⟩]) := by
  have hlast : (i, r) ∈ seen ++ [(i, r)] := List.mem_append_right _ (List.mem_singleton.mpr rfl)
  have hfresh : placesOf seen i.key = [] := by
    refine List.eq_nil_iff_forall_not_mem.mpr fun r' hr' => ?_
    obtain ⟨j, hj, hjk⟩ := mem_placesOf.mp hr'
    obtain ⟨c, hc, hck⟩ := h.keys _ hj
    exact hnew c hc (hck.trans hjk)
  refine ⟨?_, ?_, ?_⟩
  · intro c hc
    rcases List.mem_append.mp hc with hc | hc
    · obtain ⟨r', hr'⟩ := h.items c hc
      exact ⟨r', List.mem_append_left _ hr'⟩
    · obtain rfl := List.mem_singleton.mp hc
      exact ⟨r, hlast⟩
  · intro c hc
    rw [placesOf_append, placesOf_singleton]
    rcases List.mem_append.mp hc with hc | hc
    · rw [if_neg (Ne.symm (hnew c hc)), List.append_nil, h.sites c hc]
    · obtain rfl := List.mem_singleton.mp hc
      rw [if_pos rfl, hfresh, List.nil_append]
  · intro x hx
    rcases List.mem_append.mp hx with hx | hx
    · obtain ⟨c, hc, hck⟩ := h.keys x hx
      exact ⟨c, List.mem_append_left _ hc, hck⟩
    · obtain rfl := List.mem_singleton.mp hx
      exact ⟨⟨i, [r]⟩, List.mem_append_right _ (List.mem_singleton.mpr rfl), rfl⟩

/-- The calls with a place added show one more sighting. -/
theorem Gathered.addSite (h : Gathered seen calls) (hadd : addSite limit i r calls = some calls') :
    Gathered (seen ++ [(i, r)]) calls' := by
  obtain ⟨hold, rfl⟩ | ⟨hnew, -, rfl⟩ := addSite_eq_some hadd
  · exact h.join hold
  · exact h.push hnew

/-- What is gathered shows a first part of the sightings: all of them unless it is cut short. -/
theorem Gathered.gather (h : Gathered seen calls) (limit : Nat) (more : List Sighting) :
    ∃ taken, taken <+: more ∧ Gathered (seen ++ taken) (Knowledge.gather limit more calls).1 ∧
      ((Knowledge.gather limit more calls).2 = false → taken = more) := by
  induction more generalizing seen calls with
  | nil => exact ⟨[], List.prefix_rfl, by simpa [Knowledge.gather] using h, fun _ => rfl⟩
  | cons x more ih =>
    rw [Knowledge.gather]
    cases hadd : Knowledge.addSite limit x.1 x.2 calls with
    | none => exact ⟨[], List.nil_prefix, by simpa using h, by simp⟩
    | some calls =>
      obtain ⟨taken, hhead, hgathered, hall⟩ := ih (h.addSite hadd)
      refine ⟨x :: taken, (List.prefix_cons_inj x).mpr hhead, by simpa using hgathered, ?_⟩
      intro hfull
      rw [hall hfull]

/-- A list with room left shows all that was seen; any other shows a first part of it. -/
theorem exists_gathered (limit : Nat) (seen : List Sighting) :
    ∃ taken, taken <+: seen ∧ Gathered taken (gather limit seen []).1 ∧
      ((gather limit seen []).1.length < limit → taken = seen) := by
  obtain ⟨taken, hhead, hgathered, hall⟩ := Gathered.nil.gather limit seen
  refine ⟨taken, hhead, hgathered, fun hroom => hall (Bool.eq_false_iff.mpr fun hfull => ?_)⟩
  have := le_length_gather hfull
  omega

end Gather

theorem found_collectOutgoing (uses : List (Position × String)) (acc : Calls) :
    (k.collectOutgoing limit u a uses acc).found = (gather limit (uses.filterMap fun (p, name) =>
      (k.callable? name u a).map fun callee => (callee, site p name)) acc.found).1 := by
  induction uses generalizing acc with
  | nil => rfl
  | cons use uses ih =>
    obtain ⟨p, name⟩ := use
    rw [collectOutgoing]
    cases hcallee : k.callable? name u a with
    | none =>
      simp only [List.filterMap_cons, hcallee, Option.map_none]
      rw [ih]
      split <;> rfl
    | some callee =>
      simp only [List.filterMap_cons, hcallee, Option.map_some, gather]
      have hfound : (if asks a name then { acc with asked := u :: acc.asked } else acc).found =
          acc.found := by split <;> rfl
      rw [hfound]
      cases addSite limit callee (site p name) acc.found with
      | none => exact hfound
      | some found => exact ih _

/-- The calls out of an item are gathered from what is seen inside it. -/
theorem found_outgoing : (k.outgoing limit item).found = (gather limit (k.callees item) []).1 := by
  unfold outgoing callees
  cases k.latest? item.url with
  | none => rfl
  | some a => exact found_collectOutgoing ..

theorem collectCallers_eq (name : String) (places : List Position) (calls : List Call) :
    collectCallers limit name u a places calls = gather limit (places.filterMap fun p =>
      ((a.innermost? p Symbol.isCaller).bind (HierarchyItem.ofSymbol? u)).map
        fun caller => (caller, site p name)) calls := by
  induction places generalizing calls with
  | nil => rfl
  | cons p places ih =>
    rw [collectCallers]
    unfold Symbol.isCaller at ih ⊢
    cases hcaller : (a.innermost? p fun s => s.isCallable && !s.isDeclarationOnly).bind
        (HierarchyItem.ofSymbol? u) with
    | none =>
      simp only [List.filterMap_cons, hcaller, Option.map_none]
      exact ih calls
    | some caller =>
      simp only [List.filterMap_cons, hcaller, Option.map_some, gather]
      cases addSite limit caller (site p name) calls with
      | none => rfl
      | some calls => exact ih calls

theorem found_collectIncoming (docs : List (Url × Analysis)) (acc : Calls) :
    (k.collectIncoming limit item docs acc).found =
      (gather limit (docs.flatMap (k.callersIn item)) acc.found).1 := by
  induction docs generalizing acc with
  | nil => rfl
  | cons d docs ih =>
    obtain ⟨u, a⟩ := d
    rw [collectIncoming, List.flatMap_cons, gather_append, callersIn]
    dsimp only
    by_cases hnone : a.occurrences item.name = []
    · simp [hnone, ih, gather]
    · have hfound : (if asks a item.name then { acc with asked := u :: acc.asked } else acc).found =
          acc.found := by split <;> rfl
      rw [if_neg (by simpa using hnone)]
      by_cases hmeans : (k.callable? item.name u a).map HierarchyItem.key = some item.key
      · rw [if_pos hmeans, if_pos hmeans, hfound, collectCallers_eq]
        split
        · rfl
        · exact ih _
      · rw [if_neg hmeans, if_neg hmeans, ih, hfound]
        rfl

/-- The calls of an item are gathered from what encloses its uses. -/
theorem found_incoming : (k.incoming limit item).found = (gather limit (k.callers item) []).1 :=
  found_collectIncoming ..

/-- A document uses a name at a position, where it is not declared, and the name means an item. -/
structure Uses (k : Knowledge) (u : Url) (a : Analysis) (name : String) (p : Position)
    (callee : HierarchyItem) : Prop where
  listed : ∃ places, (name, places) ∈ a.index ∧ p ∈ places
  undeclared : p ∉ a.declared
  means : k.callable? name u a = some callee

theorem mem_usesIn {p : Position} {name : String} : (p, name) ∈ usesIn a item ↔
    (∃ places, (name, places) ∈ a.index ∧ p ∈ places) ∧ item.range.contains p ∧ p ∉ a.declared := by
  simp only [usesIn, List.mem_mergeSort, List.mem_filter, List.mem_flatMap, List.mem_map,
    Prod.exists, Prod.mk.injEq, Bool.and_eq_true, Bool.not_eq_true', List.contains_eq_mem,
    decide_eq_false_iff_not]
  constructor
  · rintro ⟨⟨_, places, hlisted, _, hp, rfl, rfl⟩, hin⟩
    exact ⟨⟨places, hlisted, hp⟩, hin⟩
  · rintro ⟨⟨places, hlisted, hp⟩, hin⟩
    exact ⟨⟨name, places, hlisted, p, hp, rfl, rfl⟩, hin⟩

/-- What is seen inside an item is what its document uses there. -/
theorem mem_callees {x : Sighting} : x ∈ k.callees item ↔
    ∃ a p name, k.latest? item.url = some a ∧ item.range.contains p ∧
      k.Uses item.url a name p x.1 ∧ x.2 = site p name := by
  unfold callees
  constructor
  · intro hx
    split at hx
    · rename_i a ha
      obtain ⟨⟨p, name⟩, hp, hx⟩ := List.mem_filterMap.mp hx
      obtain ⟨callee, hcallee, rfl⟩ := Option.map_eq_some_iff.mp hx
      obtain ⟨hlisted, hin, hundeclared⟩ := mem_usesIn.mp hp
      exact ⟨a, p, name, ha, hin, ⟨hlisted, hundeclared, hcallee⟩, rfl⟩
    · cases hx
  · rintro ⟨a, p, name, ha, hin, huse, hr⟩
    rw [ha]
    refine List.mem_filterMap.mpr ⟨(p, name), mem_usesIn.mpr ⟨huse.listed, hin, huse.undeclared⟩, ?_⟩
    simp only [huse.means, Option.map_some, ← hr]

/-- Documents are analysed once each, and an index lists a name once. -/
structure IsOrderly (k : Knowledge) : Prop where
  documents : k.urls.Nodup
  names : ∀ d ∈ k.analyses, (d.2.index.map (·.1)).Nodup

/-- In a list without repeated keys a key stands for what it is paired with. -/
theorem lookup_eq_some_iff {κ ν : Type} [BEq κ] [LawfulBEq κ] {pairs : List (κ × ν)}
    (h : (pairs.map (·.1)).Nodup) {key : κ} {v : ν} : pairs.lookup key = some v ↔ (key, v) ∈ pairs := by
  induction pairs with
  | nil => simp
  | cons p pairs ih =>
    obtain ⟨hp, hpairs⟩ := List.nodup_cons.mp h
    rw [List.lookup_cons, List.mem_cons]
    by_cases hkey : key = p.1
    · subst hkey
      simp only [beq_self_eq_true, Option.some.injEq]
      refine ⟨fun hv => .inl (by rw [← hv]), ?_⟩
      rintro (hv | hv)
      · rw [← hv]
      · exact absurd (List.mem_map.mpr ⟨_, hv, rfl⟩) hp
    · rw [beq_eq_false_iff_ne.mpr hkey]
      simp only [ih hpairs]
      exact ⟨.inr, fun hv => hv.resolve_left fun hv => hkey (by rw [← hv])⟩

theorem IsOrderly.latest?_eq_some (h : k.IsOrderly) : k.latest? u = some a ↔ (u, a) ∈ k.analyses :=
  lookup_eq_some_iff h.documents

theorem mem_occurrences (h : (a.index.map (·.1)).Nodup) {name : String} {p : Position} :
    p ∈ a.occurrences name ↔ ∃ places, (name, places) ∈ a.index ∧ p ∈ places := by
  simp only [Analysis.occurrences, ← lookup_eq_some_iff h]
  cases a.index.lookup name <;> simp

/-- What encloses the uses of an item is the innermost callable around each of them. -/
theorem IsOrderly.mem_callers (h : k.IsOrderly) {x : Sighting} : x ∈ k.callers item ↔
    ∃ u a p callee s, (u, a) ∈ k.analyses ∧ k.Uses u a item.name p callee ∧
      callee.key = item.key ∧ a.innermost? p Symbol.isCaller = some s ∧
      HierarchyItem.ofSymbol? u s = some x.1 ∧ x.2 = site p item.name := by
  unfold callers
  rw [List.mem_flatMap]
  constructor
  · rintro ⟨⟨u, a⟩, hd, hx⟩
    unfold callersIn at hx
    split at hx
    · rename_i hmeans
      obtain ⟨callee, hcallee, hkey⟩ := Option.map_eq_some_iff.mp hmeans
      obtain ⟨p, hp, hx⟩ := List.mem_filterMap.mp hx
      rw [List.mem_filter, mem_occurrences (h.names _ hd)] at hp
      obtain ⟨caller, hcaller, rfl⟩ := Option.map_eq_some_iff.mp hx
      obtain ⟨s, hs, hcaller⟩ := Option.bind_eq_some_iff.mp hcaller
      exact ⟨u, a, p, callee, s, hd, ⟨hp.1, by simpa using hp.2, hcallee⟩, hkey, hs, hcaller, rfl⟩
    · cases hx
  · rintro ⟨u, a, p, callee, s, hd, huse, hkey, hs, hcaller, hr⟩
    refine ⟨(u, a), hd, ?_⟩
    unfold callersIn
    rw [if_pos (by rw [huse.means, Option.map_some, hkey])]
    refine List.mem_filterMap.mpr ⟨p, ?_, ?_⟩
    · rw [List.mem_filter, mem_occurrences (h.names _ hd)]
      exact ⟨huse.listed, by simpa using huse.undeclared⟩
    · simp only [hs, Option.bind_some, hcaller, Option.map_some, ← hr]

/-- What a callable is found under is its name. -/
theorem name_of_callableIn? {name : String} {d : Url × Analysis}
    (h : callableIn? name d = some callee) : callee.name = name := by
  obtain ⟨s, hs, hcallee⟩ := Option.bind_eq_some_iff.mp h
  have hname : s.name = name := by
    have := List.find?_some hs
    simp only [Bool.and_eq_true, decide_eq_true_eq] at this
    exact this.1
  unfold HierarchyItem.ofCallable? at hcallee
  split at hcallee
  · exact (HierarchyItem.of_ofSymbol? hcallee).1.trans hname
  · cases hcallee

theorem name_of_callable? {name : String} (h : k.callable? name u a = some callee) :
    callee.name = name := by
  unfold callable? at h
  split at h
  · exact name_of_callableIn? h
  · rcases Option.or_eq_some_iff.mp h with h | ⟨-, h⟩
    · obtain ⟨dep, -, hdep⟩ := List.exists_of_findSome?_eq_some h
      obtain ⟨d, -, hd⟩ := Option.bind_eq_some_iff.mp hdep
      exact name_of_callableIn? hd
    · obtain ⟨d, -, hd⟩ := List.exists_of_findSome?_eq_some h
      exact name_of_callableIn? hd

end Knowledge
end LanguageServer
