import LanguageServer.Proofs.Analyzer.Standing
import LanguageServer.Server.Imports
import Mathlib.Data.Set.Insert

/-! What a walk through the import graph leaves alone on its way. Whatever files it comes to, it keeps
the imports of none but the one that it begins with; of the rest it takes at most what has expired. -/
namespace LanguageServer

namespace Timed.Cache

variable {κ ν : Type} [BEq κ] {c c' c'' : Cache κ ν} {p q : Set κ} {t t' : Instant} {k : κ}

/-- A cache holds what it held, but for keys in `p` and for entries that have expired by now. -/
structure Lapses (p : Set κ) (now : Instant) (c c' : Cache κ ν) : Prop where
  lifetime : c'.lifetime = c.lifetime
  entries : ∀ k ∉ p, c'.entries.find? k = c.entries.find? k ∨ c'.entries.find? k = none ∧
    ∃ e, c.entries.find? k = some e ∧ e.isFresh now c.lifetime = false

namespace Lapses

theorem refl (p : Set κ) (t : Instant) (c : Cache κ ν) : Lapses p t c c := ⟨rfl, fun _ _ => .inl rfl⟩

theorem trans (h : Lapses p t c c') (h' : Lapses p t c' c'') : Lapses p t c c'' where
  lifetime := h'.lifetime.trans h.lifetime
  entries k hk := by
    obtain hsame | ⟨hgone, hold⟩ := h.entries k hk
    · have hrest := h'.entries k hk
      rwa [hsame, h.lifetime] at hrest
    · obtain hsame' | ⟨hgone', -⟩ := h'.entries k hk
      · exact .inr ⟨hsame'.trans hgone, hold⟩
      · exact .inr ⟨hgone', hold⟩

theorem mono (h : Lapses p t c c') (hpq : p ⊆ q) : Lapses q t c c' :=
  ⟨h.lifetime, fun k hk => h.entries k fun hp => hk (hpq hp)⟩

/-- What has expired stays expired. -/
theorem later (h : Lapses p t c c') (ht : t ≤ t') : Lapses p t' c c' where
  lifetime := h.lifetime
  entries k hk := (h.entries k hk).imp_right fun ⟨hgone, e, he, hold⟩ =>
    ⟨hgone, e, he, e.isFresh_later hold ht⟩

variable [LawfulBEq κ]

/-- A look at a key drops its entry only if that has expired. -/
theorem settle (c : Cache κ ν) (t : Instant) (k : κ) : Lapses p t c (c.settle t k) := by
  unfold Cache.settle
  cases he : c.entries.find? k with
  | none => exact .refl p t c
  | some e =>
    dsimp only
    split
    · exact .refl p t c
    · next hold =>
      refine ⟨rfl, fun j _ => ?_⟩
      rw [Table.find?_erase]
      split
      · next hkj => exact .inr ⟨rfl, e, eq_of_beq hkj ▸ he, Bool.eq_false_iff.mpr hold⟩
      · exact .inl rfl

theorem storeIfUnchanged (g : ImportGraph) (c : Cache κ ν) (t t' : Instant) (hk : k ∈ p) (v : ν)
    (r : ReadSet) : Lapses p t c (g.storeIfUnchanged c t' k v r) := by
  unfold ImportGraph.storeIfUnchanged
  split
  · refine ⟨rfl, fun j hj => .inl ?_⟩
    have hne : ¬ (k == j) = true := fun hkj => hj (eq_of_beq hkj ▸ hk)
    rw [insert, Table.find?_insert, if_neg hne]
  · exact .refl p t c

end Lapses
end Timed.Cache

namespace Server

/-- Analyses are as they were. So are the graph caches, but for entries that have expired by now, the
imports of some documents and the results of walks that begin with some documents. -/
structure WritesUnder (imported walked : Set Url) (now : Instant) (s s' : Server) : Prop where
  analyses : s'.analyses = s.analyses
  imports : s.graph.imports.Lapses imported now s'.graph.imports
  waterfalls : s.graph.waterfalls.Lapses {k | k.1 ∈ walked} now s'.graph.waterfalls
  cycles : s.graph.cycles.Lapses walked now s'.graph.cycles

/-- What walks have to do with is as it was: the analyses, the graph caches, and the flights of walks. -/
structure Untouched (s s' : Server) : Prop where
  analyses : s'.analyses = s.analyses
  imports : s'.graph.imports = s.graph.imports
  waterfalls : s'.graph.waterfalls = s.graph.waterfalls
  cycles : s'.graph.cycles = s.graph.cycles
  waterfallFlights : s'.graph.waterfallFlights = s.graph.waterfallFlights
  cycleFlights : s'.graph.cycleFlights = s.graph.cycleFlights

/-- What walks have to do with is as it was, and so is the clock. -/
structure Bystands (s s' : Server) : Prop extends Untouched s s' where
  clock : s'.around.clock = s.around.clock

/-- What happens on the way of a walk that begins with `root`, up to where it ends. -/
structure Roams (root : Url) (now : Instant) (s s' : Server) : Prop
    extends WritesUnder {root} ∅ (s.time now) s s' where
  clock : s'.around.clock = s.around.clock
  waterfallOutcomes : s'.graph.waterfallFlights.outcomes = s.graph.waterfallFlights.outcomes
  cycleOutcomes : s'.graph.cycleFlights.outcomes = s.graph.cycleFlights.outcomes

variable {s s' s'' : Server} {imported walked imported' walked' : Set Url} {t t' : Instant} {root : Url}
  {q : Questions}

namespace WritesUnder

theorem refl (imported walked : Set Url) (t : Instant) (s : Server) :
    WritesUnder imported walked t s s := ⟨rfl, .refl _ t _, .refl _ t _, .refl _ t _⟩

theorem trans (h : WritesUnder imported walked t s s') (h' : WritesUnder imported walked t s' s'') :
    WritesUnder imported walked t s s'' where
  analyses := h'.analyses.trans h.analyses
  imports := h.imports.trans h'.imports
  waterfalls := h.waterfalls.trans h'.waterfalls
  cycles := h.cycles.trans h'.cycles

theorem later (h : WritesUnder imported walked t s s') (ht : t ≤ t') :
    WritesUnder imported walked t' s s' :=
  ⟨h.analyses, h.imports.later ht, h.waterfalls.later ht, h.cycles.later ht⟩

theorem mono (h : WritesUnder imported walked t s s') (himported : imported ⊆ imported')
    (hwalked : walked ⊆ walked') : WritesUnder imported' walked' t s s' where
  analyses := h.analyses
  imports := h.imports.mono himported
  waterfalls := h.waterfalls.mono fun _ hk => hwalked hk
  cycles := h.cycles.mono hwalked

end WritesUnder

theorem Untouched.writesUnder (h : Untouched s s') (t : Instant) :
    WritesUnder imported walked t s s' where
  analyses := h.analyses
  imports := h.imports ▸ .refl _ t _
  waterfalls := h.waterfalls ▸ .refl _ t _
  cycles := h.cycles ▸ .refl _ t _

theorem Bystands.refl (s : Server) : Bystands s s := ⟨⟨rfl, rfl, rfl, rfl, rfl, rfl⟩, rfl⟩

theorem Bystands.roams (h : Bystands s s') (root : Url) (t : Instant) : Roams root t s s' where
  toWritesUnder := h.writesUnder _
  clock := h.clock
  waterfallOutcomes := congrArg (·.outcomes) h.waterfallFlights
  cycleOutcomes := congrArg (·.outcomes) h.cycleFlights

section Looking

variable (root u : Url) (hash : UInt64)

theorem keepsAt_heldImports :
    (timed graphLens (ImportGraph.importsOf · u hash)).KeepsAt (Roams root) :=
  ⟨fun _ _ => ⟨⟨rfl, .settle _ _ u, .refl _ _ _, .refl _ _ _⟩, rfl, rfl, rfl⟩, fun _ => trivial⟩

theorem keepsAt_heldWaterfall (depth : Nat) :
    (timed graphLens (ImportGraph.waterfallOf · u depth hash)).KeepsAt (Roams root) :=
  ⟨fun _ _ => ⟨⟨rfl, .refl _ _ _, .settle _ _ (u, depth), .refl _ _ _⟩, rfl, rfl, rfl⟩,
    fun _ => trivial⟩

theorem keepsAt_heldCycle :
    (timed graphLens (ImportGraph.cycleOf · u hash)).KeepsAt (Roams root) :=
  ⟨fun _ _ => ⟨⟨rfl, .refl _ _ _, .refl _ _ _, .settle _ _ u⟩, rfl, rfl, rfl⟩, fun _ => trivial⟩

theorem keepsAt_storeImports (set : ImportSet) (r : ReadSet) :
    (timed graphLens fun now g => ((), g.storeImports now root set r)).KeepsAt (Roams root) := by
  refine ⟨fun _ _ => ⟨⟨rfl, ?_, .refl _ _ _, .refl _ _ _⟩, rfl, rfl, rfl⟩, fun _ => trivial⟩
  exact .storeIfUnchanged _ _ _ _ (Set.mem_singleton root) _ _

end Looking

theorem keepsAt_of_bystands {α : Type} {job : Job α} (h : job.Behaves Bystands) :
    job.KeepsAt (Roams root) := h.keepsAt fun t _ _ h => h.roams root t

theorem keepsAt_read {α : Type} (f : Server → α) : (Task.read f : Job α).KeepsAt (Roams root) :=
  keepsAt_of_bystands (.read .refl f)

theorem bystands_request {α : Type} (op : Analyzer.Operation) (params : Json) (read : Json → Option α) :
    (request op params read).Behaves Bystands :=
  have hclient (s : Server) (client : Analyzer.Client) : Bystands s { s with client } :=
    ⟨⟨rfl, rfl, rfl, rfl, rfl, rfl⟩, rfl⟩
  behaves_request (fun _ => ⟨.refl, fun s _ _ => hclient s _⟩) (fun _ s => hclient s _) read

/-- Questions whose answers are found without a look at what walks have to do with, as those to the
process are. -/
structure Questions.Bystand (q : Questions) : Prop where
  imports : ∀ text file, (q.imports text file).Behaves Bystands
  symbols : ∀ text file, (q.symbols text file).Behaves Bystands

theorem bystand_process : process.Bystand :=
  ⟨fun _ _ => bystands_request _ _ _, fun _ _ => bystands_request _ _ _⟩

section Walking

variable (hq : q.Bystand)
include hq

/-- Asking for imports keeps nothing. -/
theorem bystands_askImports (u : Url) (text : String) : (askImports u text q).Behaves Bystands := by
  have hflights (s : Server) (t : FlightTable (Url × UInt64) ImportSet) :
      Bystands s (importFlights.set t s) := ⟨⟨rfl, rfl, rfl, rfl, rfl, rfl⟩, rfl⟩
  refine .bind (behaves_join hflights fun _ => .bind (hq.imports _ _) fun edges => ?_) fun ticket =>
    behaves_await .refl _ ticket
  cases edges with
  | error f => exact .done _
  | ok edges => exact .bind (.read .refl _) fun _ => .done _

theorem bystands_topSymbols (x : Snapshot) : (topSymbols x q).Behaves Bystands := by
  refine .bind (.read .refl _) fun held => ?_
  cases held with
  | some a => exact .done _
  | none =>
    refine .bind (hq.symbols _ _) fun symbols => ?_
    cases symbols with
    | ok symbols => exact .done _
    | error f => dsimp only; split <;> exact .done _

/-- The imports of the document that a walk begins with are kept under that document. -/
theorem keepsAt_importsOf (root : Url) (text : String) :
    (importsOf root text q).KeepsAt (Roams root) := by
  refine .bind (keepsAt_heldImports root root _) fun held => ?_
  cases held with
  | some set => trivial
  | none =>
    refine .bind (keepsAt_read _) fun _ => .bind (keepsAt_read _) fun reads => ?_
    refine .bind (keepsAt_of_bystands (bystands_askImports hq root text)) fun asked => ?_
    cases asked with
    | error f => trivial
    | ok set => exact .bind (keepsAt_storeImports root set reads) fun _ => trivial

theorem keepsAt_importsOnTheWay (root u : Url) (text : String) :
    (importsOnTheWay u text q).KeepsAt (Roams root) := by
  refine .bind (keepsAt_heldImports root u _) fun held => ?_
  cases held with
  | some set => trivial
  | none => exact keepsAt_of_bystands (bystands_askImports hq u text)

/-- The imports of a file are kept only if the walk has come back to where it began. -/
theorem keepsAt_importsFrom {α : Type} (root u : Url) (text : String)
    {k : Except Failure ImportSet → Job α} (hk : ∀ r, (k r).KeepsAt (Roams root)) :
    (if u = root then importsOf u text q >>= k else importsOnTheWay u text q >>= k).KeepsAt
      (Roams root) := by
  split
  · next hroot =>
    subst hroot
    exact .bind (keepsAt_importsOf hq u text) hk
  · exact .bind (keepsAt_importsOnTheWay hq root u text) hk

theorem keepsAt_walkWaterfall (root : Url) (text : String) (depth : Nat) :
    (walkWaterfall root text depth q).KeepsAt (Roams root) := by
  refine .bind (keepsAt_read _) fun _ => .bind (keepsAt_read _) fun reads => ?_
  refine ⟨fun walk => ?_, fun _ => trivial⟩
  obtain ⟨walk, reads⟩ := walk
  dsimp only
  cases walk.next with
  | finished found => trivial
  | expand source walk =>
    refine keepsAt_importsFrom hq root _ _ fun imports => ?_
    cases imports with
    | ok set => trivial
    | error f => dsimp only; split <;> trivial
  | visit file via walk =>
    refine .bind (keepsAt_read _) fun reads => ?_
    refine .bind (keepsAt_of_bystands (behaves_document .refl file)) fun found => ?_
    cases found with
    | none => trivial
    | some x =>
      refine .bind (keepsAt_of_bystands (bystands_topSymbols hq x)) fun symbols => ?_
      cases symbols with
      | error f => trivial
      | ok symbols => trivial

theorem keepsAt_walkCycle (root : Url) (text : String) :
    (walkCycle root text q).KeepsAt (Roams root) := by
  refine .bind (keepsAt_read _) fun _ => .bind (keepsAt_read _) fun reads => ?_
  refine .bind (keepsAt_importsOf hq root text) fun imports => ?_
  cases imports with
  | error f => trivial
  | ok set =>
    refine ⟨fun walk => ?_, fun _ => trivial⟩
    obtain ⟨walk, reads⟩ := walk
    dsimp only
    cases walk.next with
    | verdict v => trivial
    | visit file walk =>
      refine .bind (keepsAt_read _) fun reads => ?_
      refine .bind (keepsAt_of_bystands (behaves_document .refl file)) fun found => ?_
      cases found with
      | none => trivial
      | some x =>
        refine .bind (keepsAt_importsOnTheWay hq root file x.text) fun imports => ?_
        cases imports with
        | ok set => trivial
        | error f => dsimp only; split <;> trivial

end Walking
end Server
end LanguageServer
