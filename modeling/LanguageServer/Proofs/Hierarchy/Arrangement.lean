import LanguageServer.Proofs.Hierarchy.Callees
import Mathlib.Data.List.Nodup

/-! Two servers that hold the same, arranged in different ways: analyses and imports that were stored in
another order, and indexes that list their names in another order. They give the same answers about
hierarchies. Wherever an order decides, for a first match or for what a limit cuts off, there is a
sort before it that only one arrangement satisfies. -/
namespace LanguageServer

section Lists

variable {α β γ κ ν : Type}

/-- Where elements in the same place of an order are equal, the order alone tells the sorted list. -/
theorem mergeSort_eq_of_perm {le : α → α → Bool} (htrans : ∀ a b c, le a b → le b c → le a c)
    (htotal : ∀ a b, le a b || le b a) {xs ys : List α}
    (hantisymm : ∀ a ∈ xs, ∀ b ∈ ys, le a b → le b a → a = b) (h : xs.Perm ys) :
    xs.mergeSort le = ys.mergeSort le := by
  refine List.Perm.eq_of_pairwise (fun a b ha hb => hantisymm a ?_ b ?_)
    (List.pairwise_mergeSort htrans htotal xs) (List.pairwise_mergeSort htrans htotal ys) ?_
  · exact List.mem_mergeSort.mp ha
  · exact List.mem_mergeSort.mp hb
  · exact (List.mergeSort_perm xs le).trans (h.trans (List.mergeSort_perm ys le).symm)

theorem map_eq_of_forall₂ {R : α → β → Prop} {f : α → γ} {g : β → γ} (hfg : ∀ a b, R a b → f a = g b)
    {xs : List α} {ys : List β} (h : List.Forall₂ R xs ys) : xs.map f = ys.map g := by
  induction h with
  | nil => rfl
  | cons hab _ ih => rw [List.map_cons, List.map_cons, hfg _ _ hab, ih]

theorem lookup_eq_of_perm [BEq κ] [LawfulBEq κ] {xs ys : List (κ × ν)} (h : xs.Perm ys)
    (hkeys : (xs.map (·.1)).Nodup) (key : κ) : xs.lookup key = ys.lookup key := by
  have hkeys' : (ys.map (·.1)).Nodup := (h.map _).nodup_iff.mp hkeys
  refine Option.ext fun v => ?_
  rw [Knowledge.lookup_eq_some_iff hkeys, Knowledge.lookup_eq_some_iff hkeys', h.mem_iff]

/-- A table answers alike, whatever order its pairs are in. -/
theorem Table.find?_eq_of_perm [BEq κ] [LawfulBEq κ] {t t' : Table κ ν} (h : t.pairs.Perm t'.pairs)
    (hkeys : t.keys.Nodup) (key : κ) : t.find? key = t'.find? key := by
  have hkeys' : t'.keys.Nodup := (h.map _).nodup_iff.mp hkeys
  refine Option.ext fun v => ?_
  rw [Table.find?_eq_some_iff hkeys, Table.find?_eq_some_iff hkeys', h.mem_iff]

theorem Timed.Cache.find?_eq_of_perm [BEq κ] [LawfulBEq κ] {c c' : Timed.Cache κ ν}
    (hlifetime : c'.lifetime = c.lifetime) (h : c.entries.pairs.Perm c'.entries.pairs)
    (hkeys : c.entries.keys.Nodup) (now : Instant) (key : κ) : c'.find? now key = c.find? now key := by
  rw [find?, entry?, ← Table.find?_eq_of_perm h hkeys, hlifetime, find?, entry?]

/-- Tables that are related pair by pair answer with what is related. -/
theorem Table.rel_find? [BEq κ] {R : α → β → Prop} {xs : List (κ × α)} {ys : List (κ × β)}
    (h : List.Forall₂ (fun x y => y.1 = x.1 ∧ R x.2 y.2) xs ys) (key : κ) :
    Option.Rel R ((Table.mk xs).find? key) ((Table.mk ys).find? key) := by
  induction h with
  | nil => exact .none
  | @cons x y xs ys hxy _ ih =>
    obtain ⟨hkey, hvalue⟩ := hxy
    simp only [Table.find?, List.find?_cons, hkey]
    cases x.1 == key with
    | true => exact .some hvalue
    | false => exact ih

/-- Lists with the same keys are related pair by pair if the pairs of each key are. -/
theorem forall₂_of_map_eq {R : κ × α → κ × β → Prop} {xs : List (κ × α)} {ys : List (κ × β)}
    (hkeys : xs.map (·.1) = ys.map (·.1)) (h : ∀ x ∈ xs, ∀ y ∈ ys, x.1 = y.1 → R x y) :
    List.Forall₂ R xs ys := by
  induction xs generalizing ys with
  | nil =>
    obtain rfl := List.map_eq_nil_iff.mp hkeys.symm
    exact .nil
  | cons x xs ih =>
    obtain ⟨y, ys, rfl⟩ : ∃ y ys', ys = y :: ys' := by
      cases ys with
      | nil => cases hkeys
      | cons y ys => exact ⟨y, ys, rfl⟩
    obtain ⟨hkey, hkeys⟩ := List.cons.inj hkeys
    refine .cons (h x List.mem_cons_self y List.mem_cons_self hkey) (ih hkeys fun x' hx y' hy => ?_)
    exact h x' (List.mem_cons_of_mem x hx) y' (List.mem_cons_of_mem y hy)

end Lists

namespace Analysis

/-- Two analyses that differ only in the order in which their indexes list the names. -/
structure Alike (a b : Analysis) : Prop where
  symbols : b.symbols = a.symbols
  diagnostics : b.diagnostics = a.diagnostics
  index : a.index.Perm b.index
  names : (a.index.map (·.1)).Nodup

namespace Alike

variable {a b : Analysis} (h : a.Alike b)
include h

theorem walk_eq : b.walk = a.walk := congrArg Symbol.walk h.symbols

theorem definition?_eq (name : String) : b.definition? name = a.definition? name := by
  rw [definition?, h.walk_eq, definition?]

theorem defines_eq (name : String) : b.defines name = a.defines name := by
  rw [defines, h.definition?_eq, defines]

theorem innermost?_eq (p : Position) (accept : Symbol → Bool) :
    b.innermost? p accept = a.innermost? p accept := by
  rw [innermost?, h.symbols, innermost?]

theorem class?_eq (name : String) : b.class? name = a.class? name := by
  rw [class?, h.walk_eq, class?]

theorem declared_eq : b.declared = a.declared := by
  rw [declared, h.walk_eq, declared]

theorem symbolIn?_eq (i : HierarchyItem) : i.symbolIn? b = i.symbolIn? a := by
  rw [HierarchyItem.symbolIn?, h.walk_eq, HierarchyItem.symbolIn?]

theorem occurrences_eq (name : String) : b.occurrences name = a.occurrences name := by
  rw [occurrences, occurrences, lookup_eq_of_perm h.index h.names]

/-- The uses of names in an item are sorted, whatever order the index lists the names in. -/
theorem usesIn_eq (item : HierarchyItem) : Knowledge.usesIn b item = Knowledge.usesIn a item := by
  have hantisymm (x y : Position × String) (hxy : Knowledge.siteLe x y) (hyx : Knowledge.siteLe y x) :
      x = y := by
    have hp : x.1 = y.1 :=
      Position.le_antisymm (Knowledge.le_of_siteLe hxy) (Knowledge.le_of_siteLe hyx)
    rw [Knowledge.siteLe_iff] at hxy hyx
    simp only [hp, ne_eq, not_true_eq_false, true_and, false_and, or_false] at hxy hyx
    exact Prod.ext hp (String.le_antisymm hxy hyx)
  unfold Knowledge.usesIn
  dsimp only
  rw [h.declared_eq]
  refine (mergeSort_eq_of_perm ?_ Knowledge.siteLe_total ?_ ?_).symm
  · exact fun _ _ _ => Knowledge.siteLe_trans
  · exact fun x _ y _ => hantisymm x y
  · exact (h.index.flatMap_right _).filter _

end Alike
end Analysis

namespace Knowledge

/-- Two documents of one URL with analyses that are alike. -/
def DocumentsAlike (d e : Url × Analysis) : Prop := e.1 = d.1 ∧ d.2.Alike e.2

/-- The same is known, but for the order of names in the indexes. -/
structure Alike (k k' : Knowledge) : Prop where
  analyses : List.Forall₂ DocumentsAlike k.analyses k'.analyses
  imports : k'.imports = k.imports
  inheritedFile : k'.inheritedFile = k.inheritedFile
  workspace : k'.workspace = k.workspace

variable {k k' : Knowledge} {a b : Analysis} {d e : Url × Analysis} {limit : Nat} {item : HierarchyItem}
  {u : Url}

section Documents

variable (hab : a.Alike b)
include hab

theorem callableIn?_eq (name : String) (u : Url) :
    callableIn? name (u, b) = callableIn? name (u, a) := by
  rw [callableIn?, hab.definition?_eq, callableIn?]

theorem classItem?_eq (name : String) (u : Url) : classItem? name (u, b) = classItem? name (u, a) := by
  rw [classItem?, hab.class?_eq, classItem?]

theorem asks_eq (name : String) : asks b name = asks a name := by
  rw [asks, hab.defines_eq, asks]

theorem inheritedBy_eq (item : HierarchyItem) : inheritedBy b item = inheritedBy a item := by
  unfold inheritedBy
  rw [hab.symbols, hab.symbolIn?_eq]

theorem heirsIn_eq (item : HierarchyItem) (u : Url) : heirsIn item (u, b) = heirsIn item (u, a) := by
  unfold heirsIn
  dsimp only
  rw [hab.symbols]

theorem collectCallers_alike (limit : Nat) (name : String) (u : Url) (places : List Position)
    (calls : List Call) :
    collectCallers limit name u b places calls = collectCallers limit name u a places calls := by
  induction places generalizing calls with
  | nil => rfl
  | cons p places ih => simp only [collectCallers, hab.innermost?_eq, ih]

end Documents

/-- What is alike for alike analyses under one URL. -/
theorem eq_of_documentsAlike {β : Type} {f : Url × Analysis → β}
    (hf : ∀ u a b, a.Alike b → f (u, b) = f (u, a)) (d e : Url × Analysis) (h : DocumentsAlike d e) :
    f d = f e := by
  obtain ⟨v, b⟩ := e
  obtain ⟨rfl, hab⟩ := h
  exact (hf d.1 d.2 b hab).symm

namespace Alike

variable (h : k.Alike k')
include h

theorem urls_eq : k'.urls = k.urls :=
  (map_eq_of_forall₂ (fun _ _ hde => hde.1.symm) h.analyses).symm

theorem latest?_cases (u : Url) : k.latest? u = none ∧ k'.latest? u = none ∨
    ∃ a b, k.latest? u = some a ∧ k'.latest? u = some b ∧ a.Alike b := by
  suffices hall : ∀ xs ys, List.Forall₂ DocumentsAlike xs ys →
      xs.lookup u = none ∧ ys.lookup u = none ∨
        ∃ a b, xs.lookup u = some a ∧ ys.lookup u = some b ∧ a.Alike b from hall _ _ h.analyses
  intro xs ys hdocs
  induction hdocs with
  | nil => exact .inl ⟨rfl, rfl⟩
  | @cons d e xs ys hde _ ih =>
    rw [List.lookup_cons, List.lookup_cons, hde.1]
    cases u == d.1 with
    | true => exact .inr ⟨d.2, e.2, rfl, rfl, hde.2⟩
    | false => exact ih

theorem others (u : Url) : List.Forall₂ DocumentsAlike (k.others u) (k'.others u) :=
  List.rel_filter (fun d e hde => by simp [hde.1]) h.analyses

/-- The first match among the other documents. -/
theorem findSome?_others_eq {f : Url × Analysis → Option HierarchyItem}
    (hf : ∀ u a b, a.Alike b → f (u, b) = f (u, a)) (u : Url) :
    (k'.others u).findSome? f = (k.others u).findSome? f := by
  have hsome (docs : List (Url × Analysis)) : docs.findSome? f = (docs.map f).findSome? id := by
    rw [List.findSome?_map, Function.id_comp]
  rw [hsome, hsome, map_eq_of_forall₂ (eq_of_documentsAlike hf) (h.others u)]

theorem prepare_eq (u : Url) (p : Position) : k'.prepare u p = k.prepare u p := by
  unfold prepare
  obtain ⟨hk, hk'⟩ | ⟨a, b, hk, hk', hab⟩ := h.latest?_cases u
  · rw [hk, hk']
  · rw [hk, hk']
    simp only [Option.bind_eq_bind, Option.bind_some, hab.innermost?_eq]

theorem callable?_eq (hab : a.Alike b) (name : String) (u : Url) :
    k'.callable? name u b = k.callable? name u a := by
  have hdependency (dep : Url) : ((k'.latest? dep).bind fun a => callableIn? name (dep, a)) =
      (k.latest? dep).bind fun a => callableIn? name (dep, a) := by
    obtain ⟨hk, hk'⟩ | ⟨a, b, hk, hk', hab⟩ := h.latest?_cases dep
    · rw [hk, hk']
    · rw [hk, hk', Option.bind_some, Option.bind_some, callableIn?_eq hab]
  unfold callable?
  rw [hab.defines_eq, callableIn?_eq hab, importsOf, h.imports,
    h.findSome?_others_eq fun u _ _ hab => callableIn?_eq hab name u]
  simp only [hdependency]
  rfl

theorem collectOutgoing_eq (hab : a.Alike b) (u : Url) (places : List (Position × String))
    (calls : Calls) :
    k'.collectOutgoing limit u b places calls = k.collectOutgoing limit u a places calls := by
  induction places generalizing calls with
  | nil => rfl
  | cons p places ih => simp only [collectOutgoing, asks_eq hab, h.callable?_eq hab, ih]

theorem outgoing_eq (limit : Nat) (item : HierarchyItem) :
    k'.outgoing limit item = k.outgoing limit item := by
  unfold outgoing
  obtain ⟨hk, hk'⟩ | ⟨a, b, hk, hk', hab⟩ := h.latest?_cases item.url
  · rw [hk, hk']
  · rw [hk, hk']
    dsimp only
    rw [hab.usesIn_eq, h.collectOutgoing_eq hab]

theorem incoming_eq (limit : Nat) (item : HierarchyItem) :
    k'.incoming limit item = k.incoming limit item := by
  suffices hall : ∀ xs ys, List.Forall₂ DocumentsAlike xs ys → ∀ calls,
      k'.collectIncoming limit item ys calls = k.collectIncoming limit item xs calls from
    hall _ _ h.analyses _
  intro xs ys hdocs
  induction hdocs with
  | nil => exact fun _ => rfl
  | @cons d e xs ys hde _ ih =>
    obtain ⟨v, b⟩ := e
    obtain ⟨u, a⟩ := d
    obtain ⟨rfl, hab⟩ := hde
    intro calls
    simp only [collectIncoming, hab.occurrences_eq, hab.declared_eq, asks_eq hab, h.callable?_eq hab,
      collectCallers_alike hab, ih]

theorem parent?_eq (hab : a.Alike b) (target : String) (item : HierarchyItem) :
    k'.parent? target item b = k.parent? target item a := by
  unfold parent?
  dsimp only
  rw [hab.class?_eq, h.inheritedFile, h.urls_eq, h.workspace,
    h.findSome?_others_eq fun u _ _ hab => classItem?_eq hab (className target) u]

theorem supertypes_eq (limit : Nat) (item : HierarchyItem) :
    k'.supertypes limit item = k.supertypes limit item := by
  unfold supertypes
  obtain ⟨hk, hk'⟩ | ⟨a, b, hk, hk', hab⟩ := h.latest?_cases item.url
  · rw [hk, hk']
  · rw [hk, hk']
    simp only [inheritedBy_eq hab, h.parent?_eq hab]

theorem subtypes_eq (limit : Nat) (item : HierarchyItem) :
    k'.subtypes limit item = k.subtypes limit item := by
  have hheirs : k.analyses.map (heirsIn item) = k'.analyses.map (heirsIn item) :=
    map_eq_of_forall₂ (eq_of_documentsAlike fun u _ _ hab => heirsIn_eq hab item u) h.analyses
  rw [subtypes, List.flatMap_def, ← hheirs, ← List.flatMap_def, subtypes]

theorem callTree_eq (limits : HierarchyLimits) (direction : CallDirection) (depth : Nat)
    (root : HierarchyItem) : k'.callTree limits direction depth root =
      k.callTree limits direction depth root := by
  simp only [callTree, h.incoming_eq, h.outgoing_eq]

end Alike

/-- Every question is answered alike: the same items and places in the same order, and the same
documents whose imports were looked at. -/
structure Agrees (k k' : Knowledge) : Prop where
  prepare : ∀ u p, k'.prepare u p = k.prepare u p
  outgoing : ∀ limit item, k'.outgoing limit item = k.outgoing limit item
  incoming : ∀ limit item, k'.incoming limit item = k.incoming limit item
  supertypes : ∀ limit item, k'.supertypes limit item = k.supertypes limit item
  subtypes : ∀ limit item, k'.subtypes limit item = k.subtypes limit item
  callTree : ∀ limits direction depth root,
    k'.callTree limits direction depth root = k.callTree limits direction depth root

theorem Alike.agrees (h : k.Alike k') : k.Agrees k' :=
  ⟨h.prepare_eq, h.outgoing_eq, h.incoming_eq, h.supertypes_eq, h.subtypes_eq, h.callTree_eq⟩

end Knowledge

namespace AnalysisStore

/-- Two analyses of one text that are alike. -/
def EntriesAlike (x y : StoredAnalysis) : Prop :=
  y.fingerprint = x.fingerprint ∧ x.analysis.Alike y.analysis

/-- Two stores that hold analyses of the same texts, alike for every document. A document has one entry,
as URLs are told apart by their text. -/
structure Alike (s t : AnalysisStore) : Prop where
  entries : ∀ u, Option.Rel EntriesAlike (s.latest? u) (t.latest? u)
  told : (s.entries.keys.map Url.text).Nodup
  told' : (t.entries.keys.map Url.text).Nodup

variable {s t : AnalysisStore}

/-- Stores are alike that were filled with the same in another order. -/
theorem alike_of_perm {pairs : List (Url × StoredAnalysis)} (hperm : pairs.Perm t.entries.pairs)
    (hpairs : List.Forall₂ (fun p q => q.1 = p.1 ∧ EntriesAlike p.2 q.2) s.entries.pairs pairs)
    (htold : (s.entries.keys.map Url.text).Nodup) : s.Alike t := by
  have hkeys : (Table.mk pairs).keys = s.entries.keys :=
    (map_eq_of_forall₂ (fun _ _ hpq => hpq.1.symm) hpairs).symm
  have hkeysPerm : s.entries.keys.Perm t.entries.keys := hkeys ▸ hperm.map Prod.fst
  have htold' : (t.entries.keys.map Url.text).Nodup := (hkeysPerm.map Url.text).nodup_iff.mp htold
  refine ⟨fun u => ?_, htold, htold'⟩
  have hfind := Table.find?_eq_of_perm hperm (hkeys ▸ List.Nodup.of_map Url.text htold) u
  rw [latest?, latest?, ← hfind]
  exact Table.rel_find? hpairs u

namespace Alike

variable (h : s.Alike t)
include h

theorem nodup_keys : s.entries.keys.Nodup := List.Nodup.of_map Url.text h.told

theorem nodup_keys' : t.entries.keys.Nodup := List.Nodup.of_map Url.text h.told'

theorem keys_perm : s.entries.keys.Perm t.entries.keys := by
  refine (List.perm_ext_iff_of_nodup h.nodup_keys h.nodup_keys').mpr fun u => ?_
  have hmem (e : Table Url StoredAnalysis) (he : e.keys.Nodup) : u ∈ e.keys ↔ (e.find? u).isSome := by
    rw [Option.isSome_iff_exists]
    simp only [Table.find?_eq_some_iff he, Table.keys, List.mem_map, Prod.exists, exists_and_right,
      exists_eq_right]
  rw [hmem _ h.nodup_keys, hmem _ h.nodup_keys']
  have hrel := h.entries u
  rw [latest?, latest?] at hrel
  generalize s.entries.find? u = x, t.entries.find? u = y at hrel
  cases hrel <;> rfl

/-- The analyses are sorted by URL, and no other order of URLs is sorted. -/
theorem settled : List.Forall₂ Knowledge.DocumentsAlike s.settled t.settled := by
  have hkeys (r : AnalysisStore) : r.settled.map (·.1) = r.entries.keys.mergeSort Url.le := by
    rw [AnalysisStore.settled, List.map_mergeSort (s := Url.le) fun _ _ _ _ => rfl, List.map_map]
    rfl
  have hmem (r : AnalysisStore) {d : Url × Analysis} (hd : d ∈ r.settled) :
      ∃ x, (d.1, x) ∈ r.entries.pairs ∧ x.analysis = d.2 := by
    obtain ⟨p, hp, rfl⟩ := List.mem_map.mp (List.mem_mergeSort.mp hd)
    exact ⟨p.2, hp, rfl⟩
  refine forall₂_of_map_eq ?_ fun d hd e he hde => ⟨hde.symm, ?_⟩
  · rw [hkeys, hkeys]
    refine mergeSort_eq_of_perm ?_ Url.le_total ?_ h.keys_perm
    · exact fun _ _ _ => Url.le_trans
    · intro u hu v hv huv hvu
      refine List.inj_on_of_nodup_map h.told hu (h.keys_perm.mem_iff.mpr hv) ?_
      exact String.le_antisymm (Url.le_iff.mp huv) (Url.le_iff.mp hvu)
  · obtain ⟨x, hx, hxd⟩ := hmem s hd
    obtain ⟨y, hy, hye⟩ := hmem t he
    have hrel := h.entries d.1
    rw [latest?, latest?, (Table.find?_eq_some_iff h.nodup_keys).mpr hx,
      (Table.find?_eq_some_iff h.nodup_keys').mpr (hde ▸ hy)] at hrel
    cases hrel with
    | some hxy => exact hxd ▸ hye ▸ hxy.2

end Alike
end AnalysisStore

namespace Server

/-- Two servers that hold the same at given times, in whatever order it came: analyses of the same texts,
and the same imports that have not expired. They are configured alike, and see the same files. -/
structure Alike (s t : Server) (now now' : Instant) : Prop where
  analyses : s.analyses.Alike t.analyses
  imports : ∀ u, t.graph.imports.find? now' u = s.graph.imports.find? now u
  configuration : t.configuration = s.configuration
  files : t.around.files = s.around.files

variable {s t : Server} {now now' : Instant}

theorem Alike.knowledge (h : s.Alike t now now') (workspace : Option (List Url)) :
    (s.knowledge now workspace).Alike (t.knowledge now' workspace) where
  analyses := h.analyses.settled
  imports := funext h.imports
  inheritedFile := by
    funext target u
    simp only [Server.knowledge, resolveTarget, h.configuration, h.files]
  workspace := rfl

/-- Servers that hold the same answer alike, however it is arranged. -/
theorem agrees_knowledge (h : s.Alike t now now') (workspace : Option (List Url)) :
    (s.knowledge now workspace).Agrees (t.knowledge now' workspace) :=
  (h.knowledge workspace).agrees

section Shelves

def shelved (path : String) : Url := ⟨"file", some "", path, none, none⟩

/-- The analysis of a file with one function, as it is held. -/
def shelvedFile (path name : String) (index : List (String × List Position)) : Url × StoredAnalysis :=
  (shelved path, {
    fingerprint := .version (shelved path) 1
    analysis := {
      symbols := [.scope ⟨name, ⟨⟨0, 0⟩, ⟨9, 0⟩⟩, ⟨⟨0, 4⟩, ⟨0, 8⟩⟩⟩ (.function none false) []]
      diagnostics := []
      index := index } })

def shelves (entries : List (Url × StoredAnalysis)) (imports : List (Url × Timed.Stamped ImportSet)) :
    Server :=
  let s := Server.new ⟨.empty, [], .scripted none, [], 0, none⟩ {}
  { s with
    analyses := { s.analyses with entries := ⟨entries⟩ }
    graph := { s.graph with imports := { s.graph.imports with entries := ⟨imports⟩ } } }

def shelvedMain : HierarchyItem :=
  ⟨"main", .function, shelved "/a.pike", ⟨⟨0, 0⟩, ⟨9, 0⟩⟩, ⟨⟨0, 4⟩, ⟨0, 8⟩⟩, none⟩

/-- A function that calls two others, with its index in some order, and the files of these. -/
def callShelves (index : List (String × List Position)) : List (Url × StoredAnalysis) :=
  [shelvedFile "/a.pike" "main" index, shelvedFile "/b.pike" "help" [], shelvedFile "/c.pike" "hold" []]

/-- The first of the files imports the second one, the second one nothing. -/
def importShelves : List (Url × Timed.Stamped ImportSet) :=
  [(shelved "/a.pike", ⟨⟨0, [⟨.inheritProgram, "b.pike", some ⟨"/b.pike"⟩, none⟩]⟩, ⟨0⟩⟩),
    (shelved "/b.pike", ⟨⟨0, []⟩, ⟨0⟩⟩)]

/-- With room for one call it is the same that is found, whatever order the files, the names and the
imports have. -/
theorem agrees_knowledge_shelves :
    let index : List (String × List Position) := [("help", [⟨1, 2⟩]), ("hold", [⟨1, 9⟩])]
    let stored := shelves (callShelves index) importShelves
    let reversed := shelves (callShelves index.reverse).reverse importShelves.reverse
    ((stored.knowledge ⟨0⟩ none).outgoing 1 shelvedMain).found.map (·.item.name) = ["help"] ∧
      ((reversed.knowledge ⟨0⟩ none).outgoing 1 shelvedMain).found.map (·.item.name) = ["help"] := by
  intro index stored reversed
  have hrefl (path name : String) : AnalysisStore.EntriesAlike
      (shelvedFile path name []).2 (shelvedFile path name []).2 := ⟨rfl, rfl, rfl, .nil, .nil⟩
  have hstores : stored.analyses.Alike reversed.analyses :=
    AnalysisStore.alike_of_perm (List.reverse_perm (callShelves index.reverse)).symm
      (.cons ⟨rfl, rfl, rfl, rfl, (List.reverse_perm index).symm, by decide⟩
        (.cons ⟨rfl, hrefl _ _⟩ (.cons ⟨rfl, hrefl _ _⟩ .nil))) (by decide +kernel)
  have himported : stored.graph.imports.entries.keys.Nodup := by decide +kernel
  have himports (u : Url) : reversed.graph.imports.find? ⟨0⟩ u = stored.graph.imports.find? ⟨0⟩ u := by
    refine Timed.Cache.find?_eq_of_perm ?_ ?_ himported ⟨0⟩ u
    · rfl
    · exact (List.reverse_perm importShelves).symm
  have halike : stored.Alike reversed ⟨0⟩ ⟨0⟩ := ⟨hstores, himports, rfl, rfl⟩
  have hfound : ((stored.knowledge ⟨0⟩ none).outgoing 1 shelvedMain).found.map (·.item.name) =
      ["help"] := by
    have hsettled : stored.analyses.settled =
        (callShelves index).map fun e => (e.1, e.2.analysis) := by
      refine List.mergeSort_of_pairwise ?_
      decide +kernel
    have hmain : (stored.knowledge ⟨0⟩ none).latest? shelvedMain.url =
        some (shelvedFile "/a.pike" "main" index).2.analysis := by
      rw [Knowledge.latest?, Server.knowledge, hsettled]
      rfl
    have huses : Knowledge.usesIn (shelvedFile "/a.pike" "main" index).2.analysis shelvedMain =
        [(⟨1, 2⟩, "help"), (⟨1, 9⟩, "hold")] := by
      refine Eq.trans (List.mergeSort_of_pairwise ?_) ?_
      · decide +kernel
      · decide +kernel
    rw [Knowledge.outgoing, hmain]
    dsimp only
    rw [huses, Server.knowledge, hsettled]
    decide +kernel
  exact ⟨hfound, (agrees_knowledge halike none).outgoing 1 shelvedMain ▸ hfound⟩

end Shelves

end Server
end LanguageServer
