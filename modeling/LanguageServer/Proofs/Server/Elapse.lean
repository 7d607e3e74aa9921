import LanguageServer.Proofs.Hierarchy.Gathering
import LanguageServer.Proofs.Server.Starting
import LanguageServer.Proofs.Task.Calling
import LanguageServer.Server.Hierarchies

/-! The calls of an item and the calls out of it, asked for twice with nothing but time between. The
second answer is the first, unless imports have expired that were looked at. -/
namespace LanguageServer

namespace Timed.Cache

variable {κ ν : Type} [BEq κ] [LawfulBEq κ] {c : Cache κ ν} {now t t' : Instant} {k j : κ}

/-- What is fresh stays, and what has expired was not found. -/
theorem find?_settle_now (c : Cache κ ν) (now : Instant) (k j : κ) :
    (c.settle now k).find? now j = c.find? now j := by
  unfold settle
  split
  · next e he =>
    split
    · rfl
    · next hold =>
      rw [show ({ c with entries := c.entries.erase k } : Cache κ ν) = c.erase k from rfl, find?_erase]
      split
      · next hj =>
        rw [← eq_of_beq hj, find?, entry?, he]
        simp [Option.filter, hold]
      · rfl
  · rfl

theorem find?_settleAll_now (ks : List κ) (c : Cache κ ν) :
    (ks.foldl (fun c k => c.settle now k) c).find? now j = c.find? now j := by
  induction ks generalizing c with
  | nil => rfl
  | cons k ks ih => rw [List.foldl_cons, ih, find?_settle_now]

omit [LawfulBEq κ] in
/-- As time passes values only expire. -/
theorem find?_later (c : Cache κ ν) (k : κ) (h : t.nanos ≤ t'.nanos) :
    c.find? t' k = c.find? t k ∨ c.find? t' k = none := by
  unfold find? entry?
  cases c.entries.find? k with
  | none => exact .inl rfl
  | some e =>
    by_cases hfresh : e.isFresh t' c.lifetime
    · have hwas : e.isFresh t c.lifetime := by
        have hlt : t'.nanos - e.written.nanos < c.lifetime.nanos := of_decide_eq_true hfresh
        exact decide_eq_true (show t.nanos - e.written.nanos < c.lifetime.nanos by omega)
      exact .inl (by simp [Option.filter, hfresh, hwas])
    · exact .inr (by simp [Option.filter, hfresh])

/-- What has just been written is there, unless nothing lives for any time. -/
theorem find?_insert_self (c : Cache κ ν) (t : Instant) (k : κ) (v : ν) :
    (c.insert t k v).find? t k = if c.lifetime.nanos = 0 then none else some v := by
  have hage : t.since t < c.lifetime ↔ ¬ c.lifetime.nanos = 0 := by
    rw [show t.since t = ⟨0⟩ from congrArg Duration.mk (Nat.sub_self _)]
    exact Nat.pos_iff_ne_zero
  rw [find?_insert, if_pos (beq_self_eq_true k)]
  simp only [hage, ite_not]

omit [LawfulBEq κ] in
theorem find?_of_lifetime_eq_zero (h : c.lifetime.nanos = 0) : c.find? now k = none := by
  unfold find? entry?
  cases c.entries.find? k with
  | none => rfl
  | some e =>
    have hold : e.isFresh now c.lifetime = false :=
      decide_eq_false (show ¬ now.nanos - e.written.nanos < c.lifetime.nanos by omega)
    simp [Option.filter, hold]

/-- What is not found is not there any more once it was looked for. -/
theorem find?_entries_settle (h : c.find? now k = none) : (c.settle now k).entries.find? k = none := by
  unfold settle
  cases he : c.entries.find? k with
  | none => exact he
  | some e =>
    have hold : ¬ e.isFresh now c.lifetime = true := by
      intro hfresh
      simp [find?, entry?, he, Option.filter, hfresh] at h
    simp only [if_neg hold]
    simp [Table.find?_erase]

end Timed.Cache

namespace Knowledge

variable {k k' : Knowledge} {name : String} {u : Url} {a : Analysis} {limit : Nat} {i : HierarchyItem}

/-- What a name means in a document draws on the analyses, and on the imports of that document. -/
theorem callable?_congr (hanalyses : k'.analyses = k.analyses)
    (himports : a.defines name = false → k'.imports u = k.imports u) :
    k'.callable? name u a = k.callable? name u a := by
  unfold callable?
  split
  · rfl
  · next h =>
    have hsame := himports (Bool.eq_false_iff.mpr h)
    simp only [importsOf, latest?, others, hanalyses, hsame]

theorem found_outgoing_congr (hanalyses : k'.analyses = k.analyses)
    (himports : k'.imports i.url = k.imports i.url) :
    (k'.outgoing limit i).found = (k.outgoing limit i).found := by
  have hcallees : k'.callees i = k.callees i := by
    unfold callees
    rw [latest?, hanalyses]
    simp only [callable?_congr hanalyses fun _ => himports]
    rfl
  rw [found_outgoing, found_outgoing, hcallees]

/-- In a document the name of an item means this item. -/
def Means (k : Knowledge) (i : HierarchyItem) (u : Url) (a : Analysis) : Prop :=
  (k.callable? i.name u a).map HierarchyItem.key = some i.key

/-- The callers differ only if somewhere the name is used, and means the item by one and not by the
other. -/
theorem exists_of_found_incoming_ne (hanalyses : k'.analyses = k.analyses)
    (h : (k'.incoming limit i).found ≠ (k.incoming limit i).found) :
    ∃ u a, (u, a) ∈ k.analyses ∧ a.occurrences i.name ≠ [] ∧ ¬ (k'.Means i u a ↔ k.Means i u a) := by
  by_contra hnone
  refine h ?_
  have hcallers : k'.callers i = k.callers i := by
    unfold callers
    rw [hanalyses]
    refine congrArg List.flatten (List.map_congr_left fun d hd => ?_)
    unfold callersIn
    by_cases hused : d.2.occurrences i.name = []
    · simp [hused]
    · have hsame : (k'.callable? i.name d.1 d.2).map HierarchyItem.key = some i.key ↔
          (k.callable? i.name d.1 d.2).map HierarchyItem.key = some i.key := by
        by_contra hdiffers
        exact hnone ⟨d.1, d.2, hd, hused, hdiffers⟩
      simp only [hsame]
  rw [found_incoming, found_incoming, hcallers]

end Knowledge

namespace Server

open LanguageServer.Task

variable {s s' s₀ s₁ s₂ s₃ : Server} {t t' t₀ t₁ t₂ t₃ : Instant} {i : HierarchyItem} {u : Url}
  {r r' : List Call} {may : Server → Server → Prop}

/-- The imports that are held for a document at a time. -/
def held (u : Url) (t : Instant) (s : Server) : Option ImportSet := s.graph.imports.find? (s.time t) u

def known (t : Instant) (s : Server) : Knowledge := s.knowledge (s.time t) s.listed

/-- Analyses and imports are as they were, and so is what counts of them. -/
structure Shelved (s s' : Server) : Prop where
  configuration : s'.configuration = s.configuration
  analyses : s'.analyses = s.analyses
  imports : s'.graph.imports = s.graph.imports
  epochs : s'.graph.epochs = s.graph.epochs
  generation : s'.graph.generation = s.graph.generation

theorem Shelved.refl (s : Server) : Shelved s s := ⟨rfl, rfl, rfl, rfl, rfl⟩

theorem Shelved.trans (h : Shelved s s₁) (h' : Shelved s₁ s₂) : Shelved s s₂ where
  configuration := h'.configuration.trans h.configuration
  analyses := h'.analyses.trans h.analyses
  imports := h'.imports.trans h.imports
  epochs := h'.epochs.trans h.epochs
  generation := h'.generation.trans h.generation

theorem Abides.shelved (h : Abides s s') : Shelved s s' :=
  ⟨h.configuration, h.analyses, h.graph ▸ rfl, h.graph ▸ rfl, h.graph ▸ rfl⟩

/-- To ask the process for imports stores nothing. -/
theorem shelved_askImports (u : Url) (text : String) : (askImports u text).Keeps Shelved := by
  refine Task.Keeps.bind (FlightTable.keeps_join (fun _ _ => ⟨rfl, rfl, rfl, rfl, rfl⟩)
    (fun _ _ => ⟨rfl, rfl, rfl, rfl, rfl⟩) fun _ => ?_) fun ticket => FlightTable.keeps_await .refl _ _
  refine Task.Keeps.bind ((abides_request _ _ _).mono fun _ _ h => h.shelved) fun edges => ?_
  cases edges with
  | error f => trivial
  | ok edges => exact Task.Keeps.bind (Task.keeps_read Shelved.refl _) fun _ => trivial

theorem returns_shelved {α : Type} {job : Job α} {a : α} (hjob : job.Keeps Shelved)
    (h : Returns Shelved job s t a s' t') : Shelved s s' :=
  (Task.Answers.called Shelved.refl (fun _ _ _ => Shelved.trans) (fun _ _ h => h)
    (hjob.answers (fun _ _ h => h) (Task.gives_true job)) h).1

/-- Time has passed, and nothing else that answers draw on is different. -/
structure Elapses (s : Server) (t : Instant) (s' : Server) (t' : Instant) : Prop where
  configuration : s'.configuration = s.configuration
  analyses : s'.analyses = s.analyses
  imports : s'.graph.imports = s.graph.imports
  later : (s.time t).nanos ≤ (s'.time t').nanos

theorem limits_congr (h : s'.configuration = s.configuration) : s'.limits = s.limits := by
  unfold limits
  rw [h]

theorem Elapses.held (h : Elapses s t s' t') (u : Url) :
    held u t' s' = held u t s ∨ held u t' s' = none := by
  unfold Server.held
  rw [h.imports]
  exact s.graph.imports.find?_later u h.later

/-- The server after a question for which the imports of documents were looked at. -/
def lookedAt (t : Instant) (asked : List Url) (s : Server) : Server :=
  { s with graph := { s.graph with
    imports := asked.foldl (fun c u => c.settle (s.time t) u) s.graph.imports } }

theorem held_lookedAt (asked : List Url) : (s.lookedAt t asked).held u t = s.held u t :=
  Timed.Cache.find?_settleAll_now asked s.graph.imports

/-- A look at imports does not change what is known. -/
theorem known_lookedAt (asked : List Url) : (s.lookedAt t asked).known t = s.known t :=
  congrArg (fun imports => { s.known t with imports }) (funext fun _ => held_lookedAt asked)

theorem returns_consultImports {α : Type} {ask : Knowledge → α × List Url} {a : α}
    (h : Returns may (consultImports listed ask) s t a s' t') :
    a = (ask (s.known t)).1 ∧ s' = s.lookedAt t (ask (s.known t)).2 ∧ t' = t :=
  Returns.of_done (Called.of_act h)

/-- The calls of an item are told at once, by what is known. -/
theorem returns_incoming (h : Returns may (incoming i) s t r s' t') :
    r = ((s.known t).incoming s.limits.items i).found ∧ s'.known t' = s.known t ∧
      s'.configuration = s.configuration := by
  obtain ⟨limit, s₁, t₁, hlimit, hconsult⟩ := Returns.of_then h
  obtain ⟨rfl, rfl, rfl⟩ := Returns.of_read hlimit
  obtain ⟨rfl, rfl, rfl⟩ := returns_consultImports hconsult
  exact ⟨rfl, known_lookedAt _, rfl⟩

/-- The calls out of an item are told by what is known once its imports were learnt. -/
theorem returns_outgoing (h : Returns may (outgoing i) s t r s' t') :
    ∃ s₁, Returns may (learnImports i.url) s t () s₁ t' ∧ s'.known t' = s₁.known t' ∧
      s'.configuration = s₁.configuration ∧
      r = ((s₁.known t').outgoing s₁.limits.items i).found := by
  obtain ⟨_, s₁, t₁, hlearn, htell⟩ := Returns.of_then h
  obtain ⟨limit, s₂, t₂, hlimit, hconsult⟩ := Returns.of_then htell
  obtain ⟨rfl, rfl, rfl⟩ := Returns.of_read hlimit
  obtain ⟨rfl, rfl, rfl⟩ := returns_consultImports hconsult
  exact ⟨s₂, hlearn, known_lookedAt _, rfl, rfl⟩

theorem incoming_returns (i : HierarchyItem) (s : Server) (t : Instant) :
    Returns may (incoming i) s t ((s.known t).incoming s.limits.items i).found
      (s.lookedAt t ((s.known t).incoming s.limits.items i).asked) t :=
  .call (e := ⟨s, 0, [], []⟩) rfl rfl

/-- An item whose imports are held has its calls told at once as well. -/
theorem outgoing_returns_of_held {set : ImportSet} (h : s.held i.url t = some set) :
    Returns may (outgoing i) s t ((s.known t).outgoing s.limits.items i).found
      ((s.lookedAt t [i.url]).lookedAt t ((s.known t).outgoing s.limits.items i).asked) t := by
  have hfind : s.graph.imports.find? (s.time t) i.url = some set := h
  have htold : Machine.advance t (outgoing i) ⟨s, 0, [], []⟩ =
      (⟨(s.lookedAt t [i.url]).lookedAt t ((s.known t).outgoing s.limits.items i).asked, 0, [], []⟩,
        .done ((s.known t).outgoing s.limits.items i).found) := by
    rw [← known_lookedAt [i.url]]
    simp only [outgoing, learnImports, heldImports, timed, Bind.bind, Task.bind, Machine.advance,
      Lens.lift, graphLens, Timed.Cache.get, hfind]
    rfl
  exact .call (e := ⟨s, 0, [], []⟩) rfl htold

/-- What the imports of a document come to for those who look at them. -/
def told : Except Failure (Option ImportSet) → Option ImportSet
  | .ok set => set
  | .error _ => none

/-- The imports of a document have just been told: they are held, unless nothing is held for any time. -/
structure Learnt (u : Url) (set : Option ImportSet) (s : Server) (t : Instant) (s' : Server)
    (t' : Instant) : Prop where
  configuration : s'.configuration = s.configuration
  analyses : s'.analyses = s.analyses
  lifetime : s'.graph.imports.lifetime = s.graph.imports.lifetime
  held : s'.held u t' = if s.graph.imports.lifetime.nanos = 0 then none else set

theorem Shelved.learnt (h : Shelved s s') (hnone : s.graph.imports.entries.find? u = none) :
    Learnt u none s t s' t' where
  configuration := h.configuration
  analyses := h.analyses
  lifetime := h.imports ▸ rfl
  held := by simp [Server.held, h.imports, Timed.Cache.find?, Timed.Cache.entry?, hnone]

theorem Shelved.learnt_trans {set : Option ImportSet} (h : Shelved s s₁) (h' : Learnt u set s₁ t₁ s' t') :
    Learnt u set s t s' t' where
  configuration := h'.configuration.trans h.configuration
  analyses := h'.analyses.trans h.analyses
  lifetime := h'.lifetime.trans (h.imports ▸ rfl)
  held := by rw [h'.held, h.imports]

/-- Imports that were stored a moment ago. -/
theorem learnt_storeImports (h : Shelved s s₁) (set : ImportSet) :
    Learnt u (some set) s₁ t₁ { s₁ with
      graph := s₁.graph.storeImports (s₁.time t₁) u set (s.graph.record u s.graph.startReads) } t₁ := by
  have hunchanged : s₁.graph.isUnchanged (s.graph.record u s.graph.startReads) = true := by
    simp [ImportGraph.isUnchanged, ImportGraph.record, ImportGraph.startReads, ImportGraph.epoch,
      h.generation, h.epochs]
  refine ⟨rfl, rfl, ?_, ?_⟩
  · simp [ImportGraph.storeImports, ImportGraph.storeIfUnchanged, hunchanged, Timed.Cache.insert]
  · simp only [Server.held, ImportGraph.storeImports, ImportGraph.storeIfUnchanged, hunchanged, if_true]
    exact Timed.Cache.find?_insert_self ..

/-- A document of which no imports are held has those that the process tells of its text. -/
theorem returns_importsOf {text : String} {res : Except Failure ImportSet}
    (hnone : s.graph.imports.entries.find? u = none)
    (h : Returns Shelved (importsOf u text) s t res s' t') :
    Learnt u (told (res.map some)) s t s' t' := by
  have hlook : graphLens.lift (ImportGraph.importsOf (s.time t) u (Hash.ofText text)) s = (none, s) := by
    simp [Lens.lift, graphLens, ImportGraph.importsOf, Timed.Cache.get, Timed.Cache.find?,
      Timed.Cache.entry?, Timed.Cache.settle, hnone]
  obtain ⟨held, s₁, t₁, hheld, hrest⟩ := Returns.of_then h
  obtain ⟨rfl, rfl, rfl⟩ := Returns.of_done (Called.of_act hheld)
  rw [hlook] at hrest
  obtain ⟨start, s₂, t₂, hstart, hrecord⟩ := Returns.of_then hrest
  obtain ⟨rfl, rfl, rfl⟩ := Returns.of_read hstart
  obtain ⟨reads, s₃, t₃, hreads, hask⟩ := Returns.of_then hrecord
  obtain ⟨rfl, rfl, rfl⟩ := Returns.of_read hreads
  obtain ⟨answer, s₄, t₄, hanswer, hstore⟩ := Returns.of_then hask
  have hshelved := returns_shelved (shelved_askImports u text) hanswer
  cases answer with
  | error f =>
    obtain ⟨rfl, rfl, rfl⟩ := Returns.of_done hstore
    exact hshelved.learnt hnone
  | ok set =>
    obtain ⟨_, s₅, t₅, hstored, hdone⟩ := Returns.of_then hstore
    obtain ⟨rfl, rfl, rfl⟩ := Returns.of_done hdone
    obtain ⟨-, rfl, rfl⟩ := Returns.of_done (Called.of_act hstored)
    exact hshelved.learnt_trans (learnt_storeImports hshelved set)

theorem returns_imports {res : Except Failure (Option ImportSet)}
    (hnone : s.graph.imports.entries.find? u = none)
    (h : Returns Shelved (imports u) s t res s' t') : Learnt u (told res) s t s' t' := by
  obtain ⟨shown, s₁, t₁, hshown, hrest⟩ := Returns.of_then h
  have hshelved := returns_shelved ((abides_document? u).mono fun _ _ h => h.shelved) hshown
  cases shown with
  | none =>
    obtain ⟨rfl, rfl, rfl⟩ := Returns.of_done hrest
    exact hshelved.learnt hnone
  | some snapshot =>
    obtain ⟨started, s₂, t₂, hstarted, hask⟩ := Returns.of_then hrest
    have hshelved' := hshelved.trans
      (returns_shelved (abides_ensureStarted.mono fun _ _ h => h.shelved) hstarted)
    cases started with
    | error f =>
      obtain ⟨rfl, rfl, rfl⟩ := Returns.of_done hask
      exact hshelved'.learnt hnone
    | ok _ =>
      obtain ⟨answer, s₃, t₃, hanswer, hdone⟩ := Returns.of_then hask
      obtain ⟨rfl, rfl, rfl⟩ := Returns.of_done hdone
      exact hshelved'.learnt_trans (returns_importsOf (hshelved'.imports ▸ hnone) hanswer)

theorem returns_heldImports {set : Option ImportSet} (h : Returns may (heldImports u) s t set s' t') :
    set = s.held u t ∧ s' = s.lookedAt t [u] ∧ t' = t := Returns.of_done (Called.of_act h)

/-- Imports that are held are not asked for; others are, and then they are held. -/
theorem returns_learnImports (h : Returns Shelved (learnImports u) s t () s' t') :
    s.held u t ≠ none ∧ s' = s.lookedAt t [u] ∧ t' = t ∨
      s.held u t = none ∧ ∃ res, Returns Shelved (imports u) (s.lookedAt t [u]) t res s' t' ∧
        Learnt u (told res) s t s' t' := by
  obtain ⟨held, s₁, t₁, hheld, hrest⟩ := Returns.of_then h
  obtain ⟨rfl, rfl, rfl⟩ := returns_heldImports hheld
  cases hset : s.held u t₁ with
  | some set =>
    rw [hset] at hrest
    obtain ⟨-, rfl, rfl⟩ := Returns.of_done hrest
    exact .inl ⟨nofun, rfl, rfl⟩
  | none =>
    rw [hset] at hrest
    obtain ⟨res, s₂, t₂, himports, hdone⟩ := Returns.of_then hrest
    obtain ⟨-, rfl, rfl⟩ := Returns.of_done hdone
    have hlearnt := returns_imports (Timed.Cache.find?_entries_settle hset) himports
    have hlifetime := s.graph.imports.lifetime_settle (s.time t₁) u
    exact .inr ⟨rfl, res, himports, hlearnt.configuration, hlearnt.analyses,
      hlearnt.lifetime.trans hlifetime, hlifetime ▸ hlearnt.held⟩

/-- The imports of a document are learnt, and nothing else that answers draw on. -/
theorem learnImports_spares (h : Returns Shelved (learnImports u) s t () s' t') :
    s'.configuration = s.configuration ∧ s'.analyses = s.analyses ∧
      s'.graph.imports.lifetime = s.graph.imports.lifetime := by
  obtain ⟨-, rfl, rfl⟩ | ⟨-, res, -, hlearnt⟩ := returns_learnImports h
  · exact ⟨rfl, rfl, Timed.Cache.lifetime_settle ..⟩
  · exact ⟨hlearnt.configuration, hlearnt.analyses, hlearnt.lifetime⟩

/-- The name of an item turns in a document: imports that were held have expired, and by that the name
means the item now and did not before, or the other way round. -/
structure Turns (i : HierarchyItem) (u : Url) (a : Analysis) (s : Server) (t : Instant) (s' : Server)
    (t' : Instant) : Prop where
  analysed : (u, a) ∈ s.analyses.settled
  used : a.occurrences i.name ≠ []
  foreign : a.defines i.name = false
  held : s.held u t ≠ none
  expired : s'.held u t' = none
  turned : ¬ ((s'.known t').Means i u a ↔ (s.known t).Means i u a)

theorem Elapses.incoming_eq_or_turns (h : Elapses s t s' t') :
    ((s'.known t').incoming s'.limits.items i).found = ((s.known t).incoming s.limits.items i).found ∨
      ∃ u a, Turns i u a s t s' t' := by
  have hanalyses : (s'.known t').analyses = (s.known t).analyses := congrArg (·.settled) h.analyses
  rw [limits_congr h.configuration, or_iff_not_imp_left]
  intro hne
  obtain ⟨u, a, hmem, hused, hturned⟩ := Knowledge.exists_of_found_incoming_ne hanalyses hne
  -- only what the imports say can have changed
  have hneeds : a.defines i.name = false ∧ s'.held u t' ≠ s.held u t := by
    by_contra hsame
    refine hturned ?_
    unfold Knowledge.Means
    rw [Knowledge.callable?_congr hanalyses fun hforeign => not_not.mp fun hne => hsame ⟨hforeign, hne⟩]
  obtain hheld | hexpired := h.held u
  · exact absurd hheld hneeds.2
  · exact ⟨u, a, hmem, hused, hneeds.1, fun hnone => hneeds.2 (hexpired.trans hnone.symm), hexpired, hturned⟩

/-- Calls asked for twice with nothing but time between. The calls of an item are those from before,
unless its name turns in a document whose imports have expired; they are not asked for again. The calls
out of an item are those from before, unless its imports have expired and the process tells others. -/
theorem Elapses.calls_eq_or_expired (h : Elapses s₁ t₁ s₂ t₂) (i : HierarchyItem) (s₀ s₃ : Server)
    (t₀ t₃ : Instant) (r r' : List Call) :
    (Returns Shelved (incoming i) s₀ t₀ r s₁ t₁ → Returns Shelved (incoming i) s₂ t₂ r' s₃ t₃ →
      r' = r ∨ ∃ u a, Turns i u a s₁ t₁ s₂ t₂) ∧
    (∃ r s, Returns Shelved (incoming i) s₂ t₂ r s t₂) ∧
    (Returns Shelved (outgoing i) s₀ t₀ r s₁ t₁ → Returns Shelved (outgoing i) s₂ t₂ r' s₃ t₃ →
      r' = r ∨ s₂.held i.url t₂ = none ∧ ∃ s res,
        Returns Shelved (Server.imports i.url) (s₂.lookedAt t₂ [i.url]) t₂ res s t₃ ∧
          told res ≠ s₁.held i.url t₁) ∧
    (s₂.held i.url t₂ ≠ none → ∃ r s, Returns Shelved (outgoing i) s₂ t₂ r s t₂) := by
  refine ⟨?_, ⟨_, _, incoming_returns i s₂ t₂⟩, ?_, fun hheld => ?_⟩
  · intro hfirst hsecond
    obtain ⟨rfl, hknown, hconfiguration⟩ := returns_incoming hfirst
    obtain ⟨rfl, -, -⟩ := returns_incoming hsecond
    rw [← hknown, ← limits_congr hconfiguration]
    exact h.incoming_eq_or_turns
  · intro hfirst hsecond
    obtain ⟨s, hlearn, hknown, hconfiguration, rfl⟩ := returns_outgoing hfirst
    obtain ⟨s', hlearn', -, hconfiguration', rfl⟩ := returns_outgoing hsecond
    obtain ⟨hconf, hanalyses, hlifetime⟩ := learnImports_spares hlearn'
    have hsame (himports : s'.held i.url t₃ = s₁.held i.url t₁) :
        ((s'.known t₃).outgoing s'.limits.items i).found =
          ((s.known t₁).outgoing s.limits.items i).found := by
      rw [← hknown, limits_congr (hconf.trans (h.configuration.trans hconfiguration))]
      refine Knowledge.found_outgoing_congr ?_ himports
      exact congrArg (·.settled) (hanalyses.trans h.analyses)
    obtain ⟨hheld, rfl, rfl⟩ | ⟨hexpired, res, hres, hlearnt⟩ := returns_learnImports hlearn'
    · exact .inl (hsame ((held_lookedAt _).trans ((h.held i.url).resolve_right hheld)))
    · by_cases htold : told res = s₁.held i.url t₁
      · refine .inl (hsame ?_)
        rw [hlearnt.held, htold, h.imports]
        split
        · next hzero => exact (Timed.Cache.find?_of_lifetime_eq_zero hzero).symm
        · rfl
      · exact .inr ⟨hexpired, s', res, hres, htold⟩
  · obtain ⟨set, hset⟩ := Option.ne_none_iff_exists'.mp hheld
    exact ⟨_, _, outgoing_returns_of_held hset⟩

section Shelf

def shelfUrl (name : String) : Url := ⟨"file", some "", "/" ++ name, none, none⟩

/-- A document with one function, in which `f` is used. -/
def shelfAnalysis (name : String) : Analysis where
  symbols := [.scope ⟨name, ⟨⟨0, 0⟩, ⟨0, 20⟩⟩, ⟨⟨0, 5⟩, ⟨0, 6⟩⟩⟩ (.function none false) []]
  diagnostics := []
  index := [("f", [⟨0, 11⟩])]

def shelfItem (document name : String) : HierarchyItem :=
  ⟨name, .function, shelfUrl document, ⟨⟨0, 0⟩, ⟨0, 20⟩⟩, ⟨⟨0, 5⟩, ⟨0, 6⟩⟩, none⟩

/-- The documents `a` and `b` define `f`, and `c` uses it in `g`. That `c` imports `b` is held. -/
def shelf : Server :=
  let (_, s) := (Server.new ⟨.empty, [], .scripted none, [], 0, none⟩ {}).openDocument (shelfUrl "c") 1 "g"
  let stored (document name : String) : Url × StoredAnalysis :=
    (shelfUrl document, ⟨.version (shelfUrl document) 1, shelfAnalysis name⟩)
  let imported : ImportSet := ⟨Hash.ofText "g", [⟨.inheritProgram, "b", some ⟨"/b"⟩, none⟩]⟩
  { s with
    client := { s.client with phase := .running }
    analyses := { s.analyses with entries := ⟨[stored "a" "f", stored "b" "f", stored "c" "g"]⟩ }
    graph := { s.graph with imports := s.graph.imports.insert ⟨0⟩ (shelfUrl "c") imported } }

/-- When all that `shelf` holds has expired. -/
def expiry : Instant := ⟨30000000000⟩

/-- The documents of `shelf` in their order. -/
def shelfDocuments : List (Url × Analysis) :=
  [(shelfUrl "a", shelfAnalysis "f"), (shelfUrl "b", shelfAnalysis "f"), (shelfUrl "c", shelfAnalysis "g")]

theorem known_shelf (t : Instant) : shelf.known t = { shelf.known t with analyses := shelfDocuments } := by
  have hsettled : shelf.analyses.settled = shelfDocuments :=
    List.mergeSort_of_pairwise (l := shelfDocuments) (by decide +kernel)
  simp only [known, knowledge, hsettled]

/-- What a task came to that is done after a move. -/
def ending? {α : Type} : Machine.Effects Server × Job α → Option (α × Server)
  | (e, .done a) => some (a, e.state)
  | _ => none

/-- A call of a job at a time, up to where it first waits. -/
def opened {α : Type} (job : Job α) (s : Server) (n : Instant) : Machine.Effects Server × Job α :=
  Machine.advance n job ⟨s, 0, [], []⟩

/-- The process has no answer for those who ask what `c` imports. -/
def landed (s : Server) : Server :=
  { s with graph := { s.graph with
    importFlights := s.graph.importFlights.land (shelfUrl "c", Hash.ofText "g") 1 (.error .notStarted) } }

/-- A call that waits once, until it has no answer. -/
def unanswered {α : Type} (job : Job α) (s : Server) (n : Instant) : Option (α × Server) :=
  (Machine.resume n (opened job s n).2 ⟨landed (opened job s n).1.state, 0, [], []⟩).bind ending?

theorem returns_of_unanswered {α : Type} {job : Job α} {n : Instant} {a : α}
    (h : unanswered job s n = some (a, s')) : Returns Shelved job s n a s' n := by
  obtain ⟨⟨e, job'⟩, hr, hdone⟩ := Option.bind_eq_some_iff.mp h
  cases job' with
  | done b =>
    cases hdone
    exact .move (e := ⟨landed (opened job s n).1.state, 0, [], []⟩) (.call (e := ⟨s, 0, [], []⟩) rfl rfl)
      ⟨rfl, rfl, rfl, rfl, rfl⟩ (Nat.le_refl _) hr
  | _ => cases hdone


/-- What `shelf` holds is looked at before it expires, and stays. -/
theorem lookedAt_shelf (asked : List Url) : shelf.lookedAt ⟨0⟩ asked = shelf := by
  have hsettle (u : Url) : shelf.graph.imports.settle ⟨0⟩ u = shelf.graph.imports := by
    have hfresh : ∀ e, shelf.graph.imports.entries.find? u = some e →
        e.isFresh ⟨0⟩ shelf.graph.imports.lifetime := fun e he =>
      (by decide +kernel : ∀ p ∈ shelf.graph.imports.entries.pairs,
        p.2.isFresh ⟨0⟩ shelf.graph.imports.lifetime) _ (Table.mem_of_find? he)
    unfold Timed.Cache.settle
    split
    · next e he => exact if_pos (hfresh e he)
    · rfl
  have hall : asked.foldl (fun c u => c.settle ⟨0⟩ u) shelf.graph.imports = shelf.graph.imports := by
    induction asked with
    | nil => rfl
    | cons u asked ih => rw [List.foldl_cons, hsettle, ih]
  exact congrArg (fun imports => { shelf with graph := { shelf.graph with imports } }) hall

theorem unanswered_outgoing : unanswered (outgoing (shelfItem "c" "g")) shelf expiry =
    (unanswered (learnImports (shelfUrl "c")) shelf expiry).map fun r =>
      (((r.2.known expiry).outgoing r.2.limits.items (shelfItem "c" "g")).found,
        r.2.lookedAt expiry ((r.2.known expiry).outgoing r.2.limits.items (shelfItem "c" "g")).asked) := rfl

/-- Later `c` is not known to import `b` any more, and nobody asks when the calls of the `f` in `b` are
to be told. The calls out of `g` are told anew, but the process does not answer. -/
theorem Elapses.calls_eq_or_expired_shelf : ∃ (r r' q q' : List Call) (s s' : Server),
    Elapses shelf ⟨0⟩ shelf expiry ∧
    Returns Shelved (incoming (shelfItem "b" "f")) shelf ⟨0⟩ r shelf ⟨0⟩ ∧
    Returns Shelved (incoming (shelfItem "b" "f")) shelf expiry r' s expiry ∧
    r.map (·.item) = [shelfItem "b" "f", shelfItem "c" "g"] ∧ r'.map (·.item) = [shelfItem "b" "f"] ∧
    (∃ u a, Turns (shelfItem "b" "f") u a shelf ⟨0⟩ shelf expiry) ∧
    Returns Shelved (outgoing (shelfItem "c" "g")) shelf ⟨0⟩ q shelf ⟨0⟩ ∧
    Returns Shelved (outgoing (shelfItem "c" "g")) shelf expiry q' s' expiry ∧
    q.map (·.item) = [shelfItem "b" "f"] ∧ q'.map (·.item) = [shelfItem "a" "f"] ∧
    ∃ s res, Returns Shelved (Server.imports (shelfUrl "c")) (shelf.lookedAt expiry [shelfUrl "c"]) expiry
      res s expiry ∧ told res ≠ shelf.held (shelfUrl "c") ⟨0⟩ := by
  have hincoming : Returns Shelved _ _ _ _ _ _ := incoming_returns (shelfItem "b" "f") shelf ⟨0⟩
  have hincoming' : Returns Shelved _ _ _ _ _ _ := incoming_returns (shelfItem "b" "f") shelf expiry
  rw [lookedAt_shelf] at hincoming
  have hcallers : ((shelf.known ⟨0⟩).incoming shelf.limits.items (shelfItem "b" "f")).found.map (·.item) =
      [shelfItem "b" "f", shelfItem "c" "g"] := by
    rw [known_shelf]
    decide +kernel
  have hcallers' : ((shelf.known expiry).incoming shelf.limits.items (shelfItem "b" "f")).found.map
      (·.item) = [shelfItem "b" "f"] := by
    rw [known_shelf]
    decide +kernel
  obtain ⟨set, hset⟩ : ∃ set, shelf.held (shelfUrl "c") ⟨0⟩ = some set :=
    Option.isSome_iff_exists.mp (by decide +kernel)
  have houtgoing : Returns Shelved (outgoing (shelfItem "c" "g")) _ _ _ _ _ :=
    outgoing_returns_of_held hset
  rw [lookedAt_shelf, lookedAt_shelf] at houtgoing
  have hlearnt : (unanswered (learnImports (shelfUrl "c")) shelf expiry).map
      (fun r => r.2.held (shelfUrl "c") expiry) = some none := by decide +kernel
  obtain ⟨⟨_, s'⟩, hs', hheld⟩ := Option.map_eq_some_iff.mp hlearnt
  have houtgoing' := returns_of_unanswered (unanswered_outgoing.trans (congrArg (Option.map _) hs'))
  have hcallees : ((shelf.known ⟨0⟩).outgoing shelf.limits.items (shelfItem "c" "g")).found.map (·.item) =
      [shelfItem "b" "f"] := by
    rw [known_shelf]
    decide +kernel
  have hcallees' : ((s'.known expiry).outgoing s'.limits.items (shelfItem "c" "g")).found.map (·.item) =
      [shelfItem "a" "f"] := by
    obtain ⟨hconfiguration, hanalyses, -⟩ := learnImports_spares (returns_of_unanswered hs')
    have hnone : shelf.held (shelfUrl "c") expiry = none := by decide +kernel
    rw [limits_congr hconfiguration, Knowledge.found_outgoing_congr (k := shelf.known expiry)
      (congrArg (·.settled) hanalyses) (hheld.trans hnone.symm), known_shelf]
    decide +kernel
  have helapses : Elapses shelf ⟨0⟩ shelf expiry := ⟨rfl, rfl, rfl, by decide +kernel⟩
  refine ⟨_, _, _, _, _, _, helapses, hincoming, hincoming', hcallers, hcallers', ?_, houtgoing,
    houtgoing', hcallees, hcallees', ?_⟩
  · refine ((helapses.calls_eq_or_expired _ _ _ _ _ _ _).1 hincoming hincoming').resolve_left fun h => ?_
    rw [h, hcallers] at hcallers'
    exact absurd hcallers' (by decide +kernel)
  · refine (((helapses.calls_eq_or_expired _ _ _ _ _ _ _).2.2.1 houtgoing houtgoing').resolve_left
      fun h => ?_).2
    rw [h, hcallees] at hcallees'
    exact absurd hcallees' (by decide +kernel)

end Shelf

end Server
end LanguageServer
