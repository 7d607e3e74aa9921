import LanguageServer.Proofs.Server.Sessions

/-! What an invalidation takes from an import graph: all that was derived from a file goes, the epoch
of the file moves on, and what was read before it will not be kept. -/
namespace LanguageServer

namespace ImportGraph

/-- What was derived from some files is dropped, and they have new epochs or the generation is new.
Flights go on. -/
structure Drops (p : Url → Prop) (g g' : ImportGraph) : Prop where
  importFlights : g'.importFlights = g.importFlights
  waterfallFlights : g'.waterfallFlights = g.waterfallFlights
  cycleFlights : g'.cycleFlights = g.cycleFlights
  generation : g.generation ≤ g'.generation
  epoch : ∀ u, g.epoch u ≤ g'.epoch u
  moved : ∀ u, p u → g.generation < g'.generation ∨ g.epoch u < g'.epoch u
  imports : ∀ x ∈ g'.imports.entries.pairs, x ∈ g.imports.entries.pairs ∧ ¬ p x.1
  waterfalls : ∀ x ∈ g'.waterfalls.entries.pairs,
    x ∈ g.waterfalls.entries.pairs ∧ ∀ u ∈ x.2.value.files, ¬ p u
  cycles : ∀ x ∈ g'.cycles.entries.pairs,
    x ∈ g.cycles.entries.pairs ∧ ∀ u ∈ x.2.value.files, ¬ p u

variable {p q : Url → Prop} {g g' g'' : ImportGraph}

theorem Drops.refl (g : ImportGraph) : Drops (fun _ => False) g g where
  importFlights := rfl
  waterfallFlights := rfl
  cycleFlights := rfl
  generation := Nat.le_refl _
  epoch _ := Nat.le_refl _
  moved _ := False.elim
  imports _ hx := ⟨hx, id⟩
  waterfalls _ hx := ⟨hx, fun _ _ => id⟩
  cycles _ hx := ⟨hx, fun _ _ => id⟩

theorem Drops.trans (h : Drops p g g') (h' : Drops q g' g'') :
    Drops (fun u => p u ∨ q u) g g'' where
  importFlights := h'.importFlights.trans h.importFlights
  waterfallFlights := h'.waterfallFlights.trans h.waterfallFlights
  cycleFlights := h'.cycleFlights.trans h.cycleFlights
  generation := Nat.le_trans h.generation h'.generation
  epoch u := Nat.le_trans (h.epoch u) (h'.epoch u)
  moved u hu := by
    have hgeneration := h'.generation
    have hepoch := h'.epoch u
    obtain hp | hq := hu
    · have := h.moved u hp
      omega
    · have := h'.moved u hq
      have := h.generation
      have := h.epoch u
      omega
  imports x hx := by
    obtain ⟨hx, hq⟩ := h'.imports x hx
    obtain ⟨hx, hp⟩ := h.imports x hx
    exact ⟨hx, not_or.mpr ⟨hp, hq⟩⟩
  waterfalls x hx := by
    obtain ⟨hx, hq⟩ := h'.waterfalls x hx
    obtain ⟨hx, hp⟩ := h.waterfalls x hx
    exact ⟨hx, fun u hu => not_or.mpr ⟨hp u hu, hq u hu⟩⟩
  cycles x hx := by
    obtain ⟨hx, hq⟩ := h'.cycles x hx
    obtain ⟨hx, hp⟩ := h.cycles x hx
    exact ⟨hx, fun u hu => not_or.mpr ⟨hp u hu, hq u hu⟩⟩

theorem epoch_invalidate (g : ImportGraph) (u v : Url) :
    (g.invalidate u).epoch v = if u = v then g.epoch u + 1 else g.epoch v := by
  simp only [epoch, invalidate, Table.find?_insert]
  by_cases h : u = v <;> simp [h]

theorem drops_invalidate (g : ImportGraph) (u : Url) : Drops (u = ·) g (g.invalidate u) where
  importFlights := rfl
  waterfallFlights := rfl
  cycleFlights := rfl
  generation := Nat.le_refl _
  epoch v := by
    rw [epoch_invalidate]
    split
    · next h => exact h ▸ Nat.le_succ _
    · exact Nat.le_refl _
  moved v hv := by
    subst hv
    exact .inr (by simp [epoch_invalidate])
  imports x hx := by
    obtain ⟨hx, hu⟩ := Table.mem_erase.mp hx
    exact ⟨hx, fun h => by simp [h] at hu⟩
  waterfalls x hx := by
    obtain ⟨hx, hkeep⟩ := List.mem_filter.mp hx
    simp only [Bool.and_eq_true, Bool.not_eq_true', List.contains_eq_mem, decide_eq_false_iff_not]
      at hkeep
    exact ⟨hx, fun v hv h => hkeep.2 (h ▸ hv)⟩
  cycles x hx := by
    obtain ⟨hx, hkeep⟩ := List.mem_filter.mp hx
    simp only [Bool.and_eq_true, Bool.not_eq_true', List.contains_eq_mem, decide_eq_false_iff_not]
      at hkeep
    exact ⟨hx, fun v hv h => hkeep.2 (h ▸ hv)⟩

theorem drops_clear (g : ImportGraph) : Drops (fun _ => True) g g.clear where
  importFlights := rfl
  waterfallFlights := rfl
  cycleFlights := rfl
  generation := Nat.le_succ _
  epoch _ := Nat.le_refl _
  moved _ _ := .inl (Nat.lt_succ_self _)
  imports _ hx := by simp [clear, Timed.Cache.clear, Table.empty] at hx
  waterfalls _ hx := by simp [clear, Timed.Cache.clear, Table.empty] at hx
  cycles _ hx := by simp [clear, Timed.Cache.clear, Table.empty] at hx

end ImportGraph

namespace Server.Event

/-- Whether nothing that was read of a document counts any more. An edit of a document that is not
open comes to nothing. -/
def Spoils (s : Server) (u : Url) : Event → Prop
  | .opened v _ _ => v = u
  | .changed v _ _ => v = u ∧ s.documents.isOpen v = true
  | .saved v => v = u
  | .closed v => v = u
  | .filesChanged _ told => u ∈ told

instance (s : Server) (u : Url) : (e : Event) → Decidable (e.Spoils s u)
  | .opened v _ _ => inferInstanceAs (Decidable (v = u))
  | .changed v _ _ => inferInstanceAs (Decidable (v = u ∧ s.documents.isOpen v = true))
  | .saved v => inferInstanceAs (Decidable (v = u))
  | .closed v => inferInstanceAs (Decidable (v = u))
  | .filesChanged _ told => inferInstanceAs (Decidable (u ∈ told))

theorem graph_drops (e : Event) (s : Server) :
    ImportGraph.Drops (e.Spoils s) s.graph (e.apply s).graph := by
  cases e with
  | opened u version text => exact ImportGraph.drops_invalidate _ u
  | changed u version edits =>
    simp only [apply, changeDocument, DocumentStore.change]
    cases hu : s.documents.documents.find? u with
    | none =>
      have hclosed : s.documents.isOpen u = false := by
        simp [DocumentStore.isOpen, Table.contains_eq_isSome_find?, hu]
      simpa [Spoils, hclosed] using ImportGraph.Drops.refl s.graph
    | some doc =>
      have hopen : s.documents.isOpen u = true := by
        simp [DocumentStore.isOpen, Table.contains_eq_isSome_find?, hu]
      simp only [Spoils, hopen, and_true]
      exact ImportGraph.drops_invalidate s.graph u
  | saved u => exact ImportGraph.drops_invalidate _ u
  | closed u => exact ImportGraph.drops_invalidate _ u
  | filesChanged files told =>
    simp only [apply]
    generalize hs : s.withFiles files = start
    have hstart : s.graph = start.graph := by rw [← hs]; rfl
    rw [hstart]
    clear hs hstart
    induction told generalizing start with
    | nil => simpa [Spoils] using ImportGraph.Drops.refl start.graph
    | cons u told ih =>
      have h := (ImportGraph.drops_invalidate start.graph u).trans (ih (start.fileChanged u))
      simpa [Spoils, List.mem_cons, eq_comm] using h

/-- What an event leaves alone of a document whose reading it does not spoil. -/
theorem snapshot?_apply {e : Event} {s : Server} {u : Url} (h : ¬ e.Spoils s u) :
    (e.apply s).documents.snapshot? u = s.documents.snapshot? u := by
  simp only [DocumentStore.snapshot?]
  congr 1
  cases e with
  | opened v version text =>
    have hv : (v == u) = false := by simpa [Spoils] using h
    simp [apply, openDocument, shows, DocumentStore.put, Table.find?_insert, hv]
  | changed v version edits =>
    simp only [apply, changeDocument, DocumentStore.change]
    cases hv : s.documents.documents.find? v with
    | none => rfl
    | some doc =>
      have hopen : s.documents.isOpen v = true := by
        simp [DocumentStore.isOpen, Table.contains_eq_isSome_find?, hv]
      have hne : (v == u) = false := by simpa [Spoils, hopen] using h
      simp [shows, Table.find?_insert, hne]
  | saved v => rfl
  | closed v =>
    have hv : (v == u) = false := by simpa [Spoils] using h
    simp [apply, closeDocument, DocumentStore.close, Table.find?_erase, hv]
  | filesChanged files told =>
    simp only [apply, (told_documents told (s.withFiles files)).1]
    rfl

/-- No event touches the settings. -/
theorem configuration_apply (e : Event) (s : Server) :
    (e.apply s).configuration = s.configuration := by
  cases e with
  | changed v version edits =>
    simp only [apply, changeDocument]
    split <;> rfl
  | filesChanged files told =>
    simp only [apply]
    change _ = (s.withFiles files).configuration
    generalize s.withFiles files = start
    induction told generalizing start with
    | nil => rfl
    | cons u told ih => exact (ih (start.fileChanged u)).trans rfl
  | _ => rfl

end Server.Event
end LanguageServer
