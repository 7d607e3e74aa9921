import LanguageServer.Analyzer.Reply
import LanguageServer.Timed.Catalog
import Mathlib.Data.List.Induction
import Mathlib.Data.String.Basic

/-! Sorted members: each name once, and under it what was written last. -/
namespace LanguageServer.Json

variable {α β : Type}

theorem lookup_insertMember (name : String) (value : α) (members : List (String × α)) (n : String) :
    (insertMember name value members).lookup n = if n = name then some value else members.lookup n := by
  induction members with
  | nil => grind [insertMember]
  | cons m rest ih =>
    obtain ⟨k, v⟩ := m
    simp only [insertMember]
    split
    · grind
    · split <;> grind

theorem insertMember_map (f : α → β) (name : String) (value : α) (members : List (String × α)) :
    insertMember name (f value) (members.map fun m => (m.1, f m.2)) =
      (insertMember name value members).map fun m => (m.1, f m.2) := by
  induction members with
  | nil => rfl
  | cons m rest ih => simp only [insertMember, List.map_cons, ih]; split <;> [rfl; (split <;> rfl)]

/-- Members in strict order of their names. -/
def Ordered (members : List (String × α)) : Prop := members.Pairwise fun m k => m.1 < k.1

theorem mem_insertMember {name : String} {value : α} {members : List (String × α)} {m : String × α}
    (h : m ∈ insertMember name value members) : m = (name, value) ∨ m ∈ members := by
  induction members with
  | nil => exact .inl (List.mem_singleton.mp h)
  | cons k rest ih => simp only [insertMember] at h; grind

theorem mem_sortMembers {members : List (String × α)} {m : String × α} (h : m ∈ sortMembers members) :
    m ∈ members := by
  refine List.foldlRecOn (motive := fun sorted => ∀ m ∈ sorted, m ∈ members) members _ (by simp)
    (fun sorted hsorted k hk m hm => ?_) m h
  obtain rfl | hm := mem_insertMember hm
  · exact hk
  · exact hsorted m hm

theorem Ordered.insertMember {members : List (String × α)} (h : Ordered members) (name : String)
    (value : α) : Ordered (insertMember name value members) := by
  induction members with
  | nil => exact List.pairwise_singleton ..
  | cons k rest ih =>
    obtain ⟨hk, hrest⟩ := List.pairwise_cons.mp h
    simp only [Json.insertMember]
    split
    next hlt =>
      exact List.pairwise_cons.mpr ⟨List.forall_mem_cons.mpr
        ⟨hlt, fun m hm => String.lt_trans hlt (hk m hm)⟩, h⟩
    next hlt =>
      split
      next heq => subst heq; exact List.pairwise_cons.mpr ⟨hk, hrest⟩
      next hne =>
        refine List.pairwise_cons.mpr ⟨fun m hm => ?_, ih hrest⟩
        obtain rfl | hm := mem_insertMember hm
        · exact lt_of_le_of_ne (not_lt.mp hlt) (Ne.symm hne)
        · exact hk m hm

/-- What stands last stays last. -/
theorem insertMember_of_forall_lt {members : List (String × α)} {name : String}
    (h : ∀ m ∈ members, m.1 < name) (value : α) :
    insertMember name value members = members ++ [(name, value)] := by
  induction members with
  | nil => rfl
  | cons k rest ih =>
    obtain ⟨hk, hrest⟩ := List.forall_mem_cons.mp h
    simp only [insertMember, List.cons_append, ih hrest]
    rw [if_neg (String.lt_asymm hk), if_neg (ne_of_gt hk)]

theorem ordered_sortMembers (members : List (String × α)) : Ordered (sortMembers members) :=
  List.foldlRecOn members _ List.Pairwise.nil fun _ h m _ => h.insertMember m.1 m.2

theorem Ordered.sortMembers {members : List (String × α)} (h : Ordered members) :
    sortMembers members = members := by
  simp only [Json.sortMembers]
  induction members using List.reverseRecOn with
  | nil => rfl
  | append_singleton rest m ih =>
    obtain ⟨hrest, -, hm⟩ := List.pairwise_append.mp h
    rw [List.foldl_append, ih hrest]
    exact insertMember_of_forall_lt (fun k hk => hm k hk m (List.mem_singleton_self m)) m.2

theorem sortMembers_map (f : α → β) (members : List (String × α)) :
    sortMembers (members.map fun m => (m.1, f m.2)) =
      (sortMembers members).map fun m => (m.1, f m.2) := by
  simp only [sortMembers]
  induction members using List.reverseRecOn with
  | nil => rfl
  | append_singleton rest m ih => simp [List.foldl_append, ih, insertMember_map]

/-- Where no name is repeated, sorting changes nothing that can be looked up. -/
theorem lookup_sortMembers {members : List (String × α)} (h : (members.map (·.1)).Nodup)
    (name : String) : (sortMembers members).lookup name = members.lookup name := by
  simp only [sortMembers]
  induction members using List.reverseRecOn with
  | nil => rfl
  | append_singleton rest m ih =>
    obtain ⟨k, v⟩ := m
    rw [List.map_append, List.nodup_append] at h
    obtain ⟨hrest, -, hk⟩ := h
    have hfresh : rest.lookup k = none := by
      rw [List.lookup_eq_none_iff]
      intro p hp
      have := hk p.1 (List.mem_map_of_mem hp) k (by simp)
      grind
    rw [List.foldl_append, List.foldl_cons, List.foldl_nil, lookup_insertMember, ih hrest,
      List.lookup_append]
    by_cases hname : name = k
    · subst hname
      simp [hfresh]
    · have : (name == k) = false := by simpa using hname
      simp [hname, List.lookup_cons, this]

end LanguageServer.Json

/-! Every record is read back from the value that it is written as. -/
namespace LanguageServer

namespace Json

variable {α : Type} {read : Json → Option α} {encode : α → Json}

theorem natOfBits?_nat {bits n : Nat} (h : n < 2 ^ bits) : (Json.nat n).natOfBits? bits = some n := by
  have hle : (n : Int) ≤ (Nat.pow 2 bits : Int) - 1 := by
    have : (n : Int) < (2 ^ bits : Nat) := by exact_mod_cast h
    change (n : Int) ≤ ((2 ^ bits : Nat) : Int) - 1
    omega
  simp only [natOfBits?, intBetween?, Json.nat, int?, Option.bind_some, Int.natCast_nonneg, hle, and_self,
    if_true, Option.map_some, Int.toNat_natCast]

theorem natOfBits?_uint32 (n : UInt32) : (Json.nat n.toNat).natOfBits? 32 = some n.toNat :=
  natOfBits?_nat n.toNat_lt

theorem natOfBits?_uint64 (n : UInt64) : (Json.nat n.toNat).natOfBits? 64 = some n.toNat :=
  natOfBits?_nat n.toNat_lt

theorem lookup_cons_of_ne {name n : String} (h : name ≠ n) (j : Json) (rest : List (String × Json)) :
    List.lookup name ((n, j) :: rest) = List.lookup name rest := by
  simp [List.lookup_cons, beq_false_of_ne h]

theorem listOf_ofList {xs : List α} (h : ∀ x ∈ xs, read (encode x) = some x) :
    listOf read (ofList encode xs) = some xs := by
  simp only [listOf, ofList]
  induction xs with
  | nil => rfl
  | cons x xs ih =>
    obtain ⟨hx, hxs⟩ := List.forall_mem_cons.mp h
    simp [hx, ih hxs]

theorem optional_none : optional read none = some none := rfl

theorem optional_ofOption {x : Option α} (h : ∀ a, x = some a → read (encode a) = some a)
    (hnull : ∀ a, encode a ≠ .null) : optional read (some (ofOption encode x)) = some x := by
  cases x with
  | none => rfl
  | some a =>
    have hread := h a rfl
    simp only [ofOption]
    unfold optional
    split <;> simp_all

@[simp] theorem optional_text (x : Option String) :
    optional string? (some (ofOption .string x)) = some x :=
  optional_ofOption (fun _ _ => rfl) nofun

/-- What is read of a written map are its members in order. -/
theorem mapOf_ofMembers {members : List (String × α)} (h : ∀ m ∈ members, read (encode m.2) = some m.2) :
    mapOf read (ofMembers (members.map fun m => (m.1, encode m.2))) = some (sortMembers members) := by
  have hsorted : ∀ m ∈ sortMembers members, read (encode m.2) = some m.2 :=
    fun m hm => h m (mem_sortMembers hm)
  simp only [mapOf, ofMembers, sortMembers_map, (ordered_sortMembers members).sortMembers]
  generalize sortMembers members = sorted at hsorted
  induction sorted with
  | nil => rfl
  | cons m rest ih =>
    obtain ⟨hm, hrest⟩ := List.forall_mem_cons.mp hsorted
    simp [hm, ih hrest]

end Json

theorem Position.ofJson?_toJson (p : Position) : Position.ofJson? p.toJson = some p := by
  simp [Position.ofJson?, Position.toJson, Json.fields?, Json.single?, Json.required,
    Position.coordinate?, Json.natOfBits?_uint32]

theorem Range.ofJson?_toJson (r : Range) : Range.ofJson? r.toJson = some r := by
  simp [Range.ofJson?, Range.toJson, Json.fields?, Json.single?, Json.required, Position.ofJson?_toJson]

namespace Symbol

theorem label?_string {label : String} (h : labels.contains label = true) :
    label? (.string label) = some label := if_pos h

theorem childrenIn?_children (items : List Json) (rest : List (String × Json)) :
    childrenIn? (("children", .array items) :: rest) = ofJsons? items := by
  simp [childrenIn?, listed?]

mutual

/-- A symbol is read back with all that is inside it, whatever its kind. -/
theorem ofJson?_toJson : ∀ s : Symbol, ofJson? s.toJson = some s
  | .scope h kind children => by
    have hchildren := ofJsons?_toJsons children
    cases kind <;>
      simp only [toJson, ofJson?, List.cons_append, List.nil_append, List.lookup_cons_self,
        Json.lookup_cons_of_ne, ne_eq, String.reduceEq, not_false_eq_true, Json.required, Json.defaulting,
        Json.string?, Json.bool?, Json.optional_text, optionalText, Option.bind_eq_bind, Option.bind_some,
        Range.ofJson?_toJson, label?_string, labels, List.contains_cons, BEq.rfl, String.reduceBEq,
        Bool.true_or, Bool.or_true, if_true, if_false, childrenIn?_children, hchildren]
  | .leaf h kind => by
    cases kind <;>
      simp only [toJson, ofJson?, List.cons_append, List.nil_append, List.lookup_cons_self,
        Json.lookup_cons_of_ne, ne_eq, String.reduceEq, not_false_eq_true, Json.required, Json.string?,
        Json.optional_text, optionalText, Option.bind_eq_bind, Option.bind_some, Range.ofJson?_toJson,
        label?_string, labels, List.contains_cons, BEq.rfl, String.reduceBEq, Bool.true_or, Bool.or_true,
        if_true, if_false]

theorem ofJsons?_toJsons : ∀ ss : List Symbol, ofJsons? (toJsons ss) = some ss
  | [] => rfl
  | s :: rest => by simp [toJsons, ofJsons?, ofJson?_toJson s, ofJsons?_toJsons rest]

end

end Symbol

theorem Severity.ofLabel?_label (k : Severity) : ofLabel? k.label = some k := by cases k <;> rfl

theorem Diagnostic.ofJson?_toJson (d : Diagnostic) : Diagnostic.ofJson? d.toJson = some d := by
  simp [Diagnostic.ofJson?, Diagnostic.toJson, Json.fields?, Json.single?, Json.required,
    Json.string?, Json.choice?, Range.ofJson?_toJson, Severity.ofLabel?_label]

namespace Analysis

/-- What is read of a written analysis has its index in order. -/
theorem ofJson?_toJson (a : Analysis) :
    Analysis.ofJson? a.toJson = some { a with index := Json.sortMembers a.index } := by
  have hpositions : ∀ m ∈ a.index,
      Json.listOf Position.ofJson? (Json.ofList Position.toJson m.2) = some m.2 :=
    fun m _ => Json.listOf_ofList fun p _ => p.ofJson?_toJson
  simp [Analysis.ofJson?, Analysis.toJson, Json.fields?, Json.single?, Json.defaulting,
    Json.listOf_ofList fun s _ => Symbol.ofJson?_toJson s,
    Json.listOf_ofList fun d _ => Diagnostic.ofJson?_toJson d, Json.mapOf_ofMembers hpositions]

/-- The same findings: an index is a map, and the order of its names means nothing. -/
structure Same (a b : Analysis) : Prop where
  symbols : a.symbols = b.symbols
  diagnostics : a.diagnostics = b.diagnostics
  index : ∀ name, a.index.lookup name = b.index.lookup name

theorem same_ofJson? {a : Analysis} (h : (a.index.map (·.1)).Nodup) :
    ∃ b, Analysis.ofJson? a.toJson = some b ∧ b.Same a :=
  ⟨_, a.ofJson?_toJson, rfl, rfl, Json.lookup_sortMembers h⟩

end Analysis

theorem ImportKind.ofJson?_toJson (k : ImportKind) : ImportKind.ofJson? k.toJson = some k := by
  cases k <;> rfl

theorem Path.ofJson?_toJson (p : Path) : Path.ofJson? p.toJson = some p := rfl

theorem ImportEdge.ofJson?_toJson (e : ImportEdge) : ImportEdge.ofJson? e.toJson = some e := by
  have hresolved : Json.optional Path.ofJson? (some (.ofOption Path.toJson e.resolved)) =
      some e.resolved :=
    Json.optional_ofOption (fun p _ => p.ofJson?_toJson) nofun
  have hrange : Json.optional Range.ofJson? (some (.ofOption Range.toJson e.range)) = some e.range :=
    Json.optional_ofOption (fun r _ => r.ofJson?_toJson) nofun
  simp [ImportEdge.ofJson?, ImportEdge.toJson, Json.fields?, Json.single?, Json.required, Json.string?,
    ImportKind.ofJson?_toJson, hresolved, hrange]

/-- A URL whose text is read as the URL itself. -/
def Url.ReadsBack (u : Url) : Prop := Url.parse? u.text = some u

instance (u : Url) : Decidable u.ReadsBack := inferInstanceAs (Decidable (_ = _))

theorem Url.ReadsBack.ofJson?_toJson {u : Url} (h : u.ReadsBack) : Url.ofJson? u.toJson = some u := by
  rw [ReadsBack] at h
  simp only [Url.ofJson?, Url.toJson, Json.string?, Option.bind_some, h]

theorem CycleVerdict.ofJson?_toJson {v : CycleVerdict}
    (h : ∀ path, v = .cycle path → ∀ u ∈ path, u.ReadsBack) :
    CycleVerdict.ofJson? v.toJson = some v := by
  cases v with
  | acyclic => rfl
  | cycle path =>
    simp [CycleVerdict.ofJson?, CycleVerdict.toJson, Json.lookup_cons_of_ne, Json.string?, Json.required,
      Json.listOf_ofList fun u hu => (h path rfl u hu).ofJson?_toJson]

theorem WaterfallSymbol.ofJson?_toJson {s : WaterfallSymbol} (hsource : s.source.ReadsBack)
    (hdepth : s.depth < 2 ^ 64) : WaterfallSymbol.ofJson? s.toJson = some s := by
  simp [WaterfallSymbol.ofJson?, WaterfallSymbol.toJson, Json.fields?, Json.single?, Json.required,
    Symbol.ofJson?_toJson, hsource.ofJson?_toJson, Json.natOfBits?_nat hdepth, ImportKind.ofJson?_toJson]

theorem Waterfall.ofJson?_toJson {w : Waterfall} (hdepth : w.depth < 2 ^ 64)
    (h : ∀ s ∈ w.symbols, s.source.ReadsBack ∧ s.depth < 2 ^ 64) :
    Waterfall.ofJson? w.toJson = some w := by
  have hsymbols : Json.listOf WaterfallSymbol.ofJson? (.ofList WaterfallSymbol.toJson w.symbols) =
      some w.symbols :=
    Json.listOf_ofList fun s hs => WaterfallSymbol.ofJson?_toJson (h s hs).1 (h s hs).2
  simp [Waterfall.ofJson?, Waterfall.toJson, Json.fields?, Json.single?, Json.required,
    Json.natOfBits?_uint64, Json.natOfBits?_nat hdepth, hsymbols]

theorem Export.ofJson?_toJson (e : Export) : Export.ofJson? e.toJson = some e := by
  simp [Export.ofJson?, Export.toJson, Json.fields?, Json.single?, Json.required, Json.string?]

theorem Introspection.ofJson?_toJson (i : Introspection) :
    Introspection.ofJson? i.toJson = some i := by
  have hinherits : Json.listOf Json.string? (.ofList .string i.inherits) = some i.inherits :=
    Json.listOf_ofList fun _ _ => rfl
  simp [Introspection.ofJson?, Introspection.toJson, Json.fields?, Json.single?, Json.defaulting,
    hinherits, Json.listOf_ofList fun e _ => Export.ofJson?_toJson e]

theorem Health.ofJson?_toJson (h : Health) : Health.ofJson? h.toJson = some h := by
  have hpid : Json.optional (fun j => (j.natOfBits? 32).map Nat.toUInt32)
      (some (.ofOption (fun n => .nat n.toNat) h.pid)) = some h.pid :=
    Json.optional_ofOption (fun n _ => by simp [Json.natOfBits?_uint32]) nofun
  simp [Health.ofJson?, Health.toJson, Json.fields?, Json.single?, hpid]

theorem StdlibSymbol.ofJson?_toJson (s : StdlibSymbol) : StdlibSymbol.ofJson? s.toJson = some s := by
  simp [StdlibSymbol.ofJson?, StdlibSymbol.toJson, Json.fields?, Json.single?, Json.required,
    Json.string?]

namespace Timed

theorem TagAttribute.ofJson?_toJson (a : TagAttribute) : TagAttribute.ofJson? a.toJson = some a := by
  simp [TagAttribute.ofJson?, TagAttribute.toJson, Json.fields?, Json.single?, Json.required,
    Json.defaulting, Json.string?, Json.bool?]

theorem Tag.ofJson?_toJson (t : Tag) : Tag.ofJson? t.toJson = some t := by
  simp [Tag.ofJson?, Tag.toJson, Json.fields?, Json.single?, Json.required, Json.defaulting,
    Json.string?, Json.listOf_ofList fun a _ => TagAttribute.ofJson?_toJson a]

end Timed

namespace Analyzer

theorem Request.ofJson?_toJson (r : Request) : Request.ofJson? r.toJson = some r := by
  simp [Request.ofJson?, Request.toJson, Json.fields?, Json.single?, Json.required, Json.string?,
    requestId?, Json.natOfBits?_uint64]

/-- A code has 64 bits, one of them for the sign. -/
def Rejection.IsNarrow (r : Rejection) : Prop :=
  -9223372036854775808 ≤ r.code ∧ r.code ≤ 9223372036854775807

theorem Rejection.ofJson?_toJson {r : Rejection} (h : r.IsNarrow) :
    Rejection.ofJson? r.toJson = some r := by
  have hhalf : Nat.pow 2 (64 - 1) = 9223372036854775808 := by decide
  have hcode : (Json.int r.code).intOfBits? 64 = some r.code := by
    simp only [Json.intOfBits?, Json.intBetween?, Json.int?, Option.bind_some, hhalf]
    exact if_pos h
  simp [Rejection.ofJson?, Rejection.toJson, Json.fields?, Json.single?, Json.required,
    Json.string?, hcode]

end Analyzer
end LanguageServer
