import LanguageServer.Proofs.Flight.Sharing
import LanguageServer.Proofs.Task.Contract
import LanguageServer.Server.Imports
import Mathlib.Data.Set.Function

/-! How a walk reads documents and their imports while others use the server: as long as the texts
stay as they are and the extraction is a function of a file and its text, the walk learns both. -/
namespace LanguageServer

/-- What stays as it is while a walk goes on: the texts of the documents, open and on disk, and what
the extraction of imports makes of a file and its text. No two texts around have one hash. -/
structure ImportFacts where
  opened : Url → Option String
  onDisk : Url → Option String
  extracted : Url → String → Except Failure ImportSet
  texts : Set String
  opened_mem : ∀ u t, opened u = some t → t ∈ texts
  onDisk_mem : ∀ u t, onDisk u = some t → t ∈ texts
  hash_inj : Set.InjOn Hash.ofText texts
  extracted_hash : ∀ u t set, extracted u t = .ok set → set.hash = Hash.ofText t

namespace ImportFacts

variable (F : ImportFacts)

/-- The text of a file; an open document hides what is on disk. -/
def text? (u : Url) : Option String := (F.opened u).or (F.onDisk u)

/-- The text that a file has for a walk: the given one at the root. -/
def textFrom (root : Url) (source : String) (u : Url) : Option String :=
  if u = root then some source else F.text? u

/-- The files that a file imports; one that cannot be read or whose imports cannot be extracted
imports none. -/
def deps (root : Url) (source : String) (u : Url) : List Url :=
  match (F.textFrom root source u).map (F.extracted u) with
  | some (.ok set) => set.urls
  | _ => []

/-- What is extracted from a text, or a failure of the process. -/
def Gives (u : Url) (t : String) (r : Except Failure ImportSet) : Prop :=
  r = F.extracted u t ∨ ∃ f, r = .error f ∧ f.needsRestart = true

/-- What a flight for the imports of a text of this hash may come to. -/
def Answers (u : Url) (hash : UInt64) (r : Except Failure ImportSet) : Prop :=
  ∃ t ∈ F.texts, Hash.ofText t = hash ∧ F.Gives u t r

/-- The imports that are held are those of a text. -/
def HoldsImports (g : ImportGraph) : Prop :=
  ∀ u e, g.imports.entries.find? u = some e → ∃ t ∈ F.texts, F.extracted u t = .ok e.value

/-- A server that shows the texts and holds no other imports. -/
structure Holds (s : Server) : Prop where
  opened : ∀ u, (s.documents.snapshot? u).map (·.text) = F.opened u
  onDisk : ∀ u, u.toFilePath?.bind s.around.files.text? = F.onDisk u
  imports : F.HoldsImports s.graph

/-- The server tells this fingerprint of a document, from what is open or from the file. -/
def Showing (u : Url) (f : Fingerprint) (s : Server) : Prop :=
  s.documents.fingerprint? u = some f ∨ DocumentStore.statOf? s.around.files u = some f

/-- A flight that was in the air still is, or has landed with an answer. -/
def Lands (s s' : Server) : Prop :=
  ∀ key id, s.graph.importFlights.running.find? key = some id →
    match s'.graph.importFlights.outcome? id with
    | some o => F.Answers key.1 key.2 o
    | none => s'.graph.importFlights.running.find? key = some id

/-- Some extraction of imports has not come to its end. -/
def Flying (s : Server) : Prop := ∃ key id, s.graph.importFlights.running.find? key = some id

/-- A company that keeps an invariant with the facts in it, and lets flights land. -/
structure Respects (o : Company Server) (Inv : Server → Prop) : Prop where
  holds : ∀ s, Inv s → F.Holds s
  others : ∀ s s', Inv s → o.may s s' → Inv s'
  landed : ∀ s s', Inv s → o.may s s' → F.Lands s s'
  stalls : ∀ s, Flying s → o.stalls s
  graph : ∀ s g, Inv s → F.HoldsImports g → Inv { s with graph := g }

variable {F}

theorem text_mem {u : Url} {t : String} (h : F.text? u = some t) : t ∈ F.texts := by
  cases ho : F.opened u with
  | some x =>
    simp only [text?, ho, Option.some_or, Option.some.injEq] at h
    exact h ▸ F.opened_mem u x ho
  | none =>
    simp only [text?, ho, Option.none_or] at h
    exact F.onDisk_mem u t h

theorem textFrom_root (root : Url) (source : String) :
    F.textFrom root source root = some source := if_pos rfl

theorem textFrom_of_ne {root u : Url} (source : String) (hu : u ≠ root) :
    F.textFrom root source u = F.text? u := if_neg hu

theorem textFrom_mem {root u : Url} {source t : String} (hsource : source ∈ F.texts)
    (h : F.textFrom root source u = some t) : t ∈ F.texts := by
  unfold textFrom at h
  split at h
  · exact Option.some.inj h ▸ hsource
  · exact text_mem h

variable {root u : Url} {source t : String}

theorem deps_of_ok {set : ImportSet} (htext : F.textFrom root source u = some t)
    (hset : F.extracted u t = .ok set) : F.deps root source u = set.urls := by
  simp [deps, htext, hset]

theorem deps_of_error {f : Failure} (htext : F.textFrom root source u = some t)
    (hf : F.extracted u t = .error f) : F.deps root source u = [] := by
  simp [deps, htext, hf]

theorem deps_of_none (htext : F.textFrom root source u = none) : F.deps root source u = [] := by
  simp [deps, htext]

theorem Answers.gives {r : Except Failure ImportSet} (ht : t ∈ F.texts)
    (h : F.Answers u (Hash.ofText t) r) : F.Gives u t r := by
  obtain ⟨x, hx, hhash, hr⟩ := h
  rwa [F.hash_inj hx ht hhash] at hr

theorem Gives.ok {set : ImportSet} (h : F.Gives u t (.ok set)) :
    F.extracted u t = .ok set := by
  obtain h | ⟨f, hf, -⟩ := h
  · exact h.symm
  · cases hf

theorem Gives.error {f : Failure} (h : F.Gives u t (.error f)) :
    f.needsRestart = true ∨ F.extracted u t = .error f := by
  obtain h | ⟨_, hf, hrestart⟩ := h
  · exact .inr h.symm
  · cases hf
    exact .inl hrestart

end ImportFacts

theorem Timed.Cache.find?_settle {κ ν : Type} [BEq κ] [EquivBEq κ] (c : Timed.Cache κ ν)
    (now : Instant) (k j : κ) {e : Timed.Stamped ν} (h : (c.settle now k).entries.find? j = some e) :
    c.entries.find? j = some e := by
  unfold settle at h
  split at h
  · split at h
    · exact h
    · rw [Table.find?_erase] at h
      split at h
      · simp at h
      · exact h
  · exact h

theorem Server.meets_timed {ω α τ : Type} {c : Contract ω Server} {w : ω} {s : Server}
    (l : Lens Server τ) (f : Instant → τ → α × τ) (Q : α → ω → Server → Prop) :
    (Server.timed l f).Meets c Q w s ↔
      ∀ t, Q (f (s.time t) (l.get s)).1 w (l.set (f (s.time t) (l.get s)).2 s) := Iff.rfl

theorem FileTree.status?_isSome {t : FileTree} {p : Path} {text : String} (h : t.text? p = some text) :
    (t.status? p).isSome := by
  unfold text? at h
  unfold status?
  split at h
  · next bytes modified hf => simp [hf]
  · simp at h

namespace ImportFacts

variable {F : ImportFacts} {o : Company Server} {Inv : Server → Prop} {w s : Server}

/-- A file whose status is gone has no text. -/
theorem Holds.onDisk_none (hs : F.Holds s) {u : Url}
    (h : DocumentStore.statOf? s.around.files u = none) : F.onDisk u = none := by
  rw [← hs.onDisk u]
  cases hp : u.toFilePath? with
  | none => rfl
  | some path =>
    cases ht : s.around.files.text? path with
    | none => simp [ht]
    | some text =>
      have hstatus := FileTree.status?_isSome ht
      obtain ⟨status, hst⟩ := Option.isSome_iff_exists.mp hstatus
      simp [DocumentStore.statOf?, hp, hst] at h

/-- A document is read as the facts have it, and its fingerprint is one that it had. -/
theorem Respects.document? (h : F.Respects o Inv) (hs : Inv s) (u : Url)
    {Q : Option Snapshot → Server → Server → Prop}
    (hQ : ∀ r w s, Inv s → r.map (·.text) = F.text? u →
      (∀ snap, r = some snap → snap.url = u ∧ ∃ s, Inv s ∧ Showing u snap.fingerprint s) → Q r w s) :
    (Server.document? u).Meets (.alone o) Q w s := by
  unfold Server.document?
  rw [Task.meets_then, Task.meets_read]
  have hopened := (h.holds s hs).opened u
  cases hsnap : s.documents.snapshot? u with
  | some snap =>
    simp only [hsnap, Option.map_some] at hopened
    refine hQ _ _ _ hs (by simp [text?, ← hopened]) fun r hr => ?_
    cases hr
    obtain ⟨doc, hdoc, rfl⟩ := Option.map_eq_some_iff.mp hsnap
    exact ⟨rfl, s, hs, .inl (by simp [DocumentStore.fingerprint?, hdoc])⟩
  | none =>
    simp only [hsnap, Option.map_none] at hopened
    have htext : F.text? u = F.onDisk u := by simp [text?, ← hopened]
    cases hp : u.toFilePath? with
    | none =>
      have hdisk := (h.holds s hs).onDisk u
      exact hQ _ _ _ hs (by simp [htext, ← hdisk, hp]) (by simp)
    | some path =>
      rw [Task.meets_then, Task.meets_giveWay, Contract.parks_alone]
      -- others run before the status is looked at, and again before the file is read
      intro s₁ hmay₁
      have hs₁ := h.others s s₁ hs hmay₁
      rw [Task.meets_then, Task.meets_read]
      cases hstat : DocumentStore.statOf? s₁.around.files u with
      | none =>
        have hdisk := (h.holds s₁ hs₁).onDisk_none hstat
        exact hQ _ _ _ hs₁ (by simp [htext, hdisk]) (by simp)
      | some fingerprint =>
        rw [Task.meets_then, Task.meets_giveWay, Contract.parks_alone]
        intro s₂ hmay₂
        have hs₂ := h.others s₁ s₂ hs₁ hmay₂
        have hdisk := (h.holds s₂ hs₂).onDisk u
        rw [hp, Option.bind_some] at hdisk
        rw [Task.meets_then, Task.meets_read]
        cases ht : s₂.around.files.text? path with
        | none => exact hQ _ _ _ hs₂ (by simp [htext, ← hdisk, ht]) (by simp)
        | some text =>
          refine hQ _ _ _ hs₂ (by simp [htext, ← hdisk, ht]) fun r hr => ?_
          cases hr
          exact ⟨rfl, s₁, hs₁, .inr hstat⟩

/-- What is held for a text comes from it. -/
theorem Holds.importsOf (hs : F.Holds s) {u : Url} {t : String} (ht : t ∈ F.texts) (now : Instant)
    {set : ImportSet} (hset : (s.graph.importsOf now u (Hash.ofText t)).1 = some set) :
    F.extracted u t = .ok set := by
  simp only [ImportGraph.importsOf, Timed.Cache.get, Timed.Cache.find?, Timed.Cache.entry?,
    Option.filter_eq_some_iff, Option.map_eq_some_iff, decide_eq_true_eq] at hset
  obtain ⟨⟨e, ⟨hfind, -⟩, rfl⟩, hhash⟩ := hset
  obtain ⟨x, hx, hextracted⟩ := hs.imports u e hfind
  rwa [F.hash_inj hx ht ((F.extracted_hash u x _ hextracted).symm.trans hhash)] at hextracted

theorem HoldsImports.importsOf {g : ImportGraph} (hg : F.HoldsImports g) (now : Instant) (u : Url)
    (hash : UInt64) : F.HoldsImports (g.importsOf now u hash).2 :=
  fun v e he => hg v e (Timed.Cache.find?_settle _ now u v he)

theorem HoldsImports.storeImports {g : ImportGraph} (hg : F.HoldsImports g) {u : Url} {t : String}
    (ht : t ∈ F.texts) {set : ImportSet} (hset : F.extracted u t = .ok set) (now : Instant)
    (reads : ReadSet) :
    F.HoldsImports (g.storeImports now u set reads) := by
  intro v e he
  simp only [ImportGraph.storeImports, ImportGraph.storeIfUnchanged] at he
  split at he
  · simp only [Timed.Cache.insert, Table.find?_insert] at he
    split at he
    · next huv =>
      cases he
      cases beq_iff_eq.mp huv
      exact ⟨t, ht, hset⟩
    · exact hg v e he
  · exact hg v e he

/-- A flight for the imports of a text gives those of the text, or the process has failed. -/
theorem Respects.askImports (h : F.Respects o Inv) (hs : Inv s) (u : Url) {t : String}
    (ht : t ∈ F.texts) {Q : Except Failure ImportSet → Server → Server → Prop}
    (hQ : ∀ r w s, Inv s → F.Gives u t r → Q r w s) :
    (Server.askImports u t).Meets (.alone o) Q w s := by
  unfold Server.askImports
  have hfly {s id} (hs : Inv s)
      (hrun : s.graph.importFlights.running.find? (u, Hash.ofText t) = some id) :
      (FlightTable.await Server.importFlights (.flight id)).Meets (.alone o) Q w s := by
    refine FlightTable.meets_await (by simp) fun id' hid => ?_
    cases hid
    rw [Contract.parks_alone]
    intro s' hmay
    have hland := h.landed s s' hs hmay _ _ hrun
    refine ⟨fun hnone => ?_, fun r hr => ?_⟩
    · have hout : s'.graph.importFlights.outcome? id = none := hnone
      rw [hout] at hland
      exact h.stalls s' ⟨_, _, hland⟩
    · have hout : s'.graph.importFlights.outcome? id = some r := hr
      rw [hout] at hland
      exact hQ r _ s' (h.others s s' hs hmay) (hland.gives ht)
  rw [Task.meets_then]
  refine FlightTable.meets_join (fun id hrun => hfly ?_ hrun) (by simp) fun hrun _ => ?_
  · exact h.graph s _ hs (h.holds s hs).imports
  · refine ⟨w, trivial, False.elim, hfly (h.graph s _ hs (h.holds s hs).imports) ?_⟩
    exact (Table.find?_insert _ _ _ _).trans (if_pos (beq_self_eq_true _))

/-- What is held of the imports of a text is what is extracted from it. -/
theorem Respects.held (h : F.Respects o Inv) (hs : Inv s) (u : Url) {t : String} (ht : t ∈ F.texts)
    {Q : Option ImportSet → Server → Server → Prop}
    (hsome : ∀ set w s, Inv s → F.extracted u t = .ok set → Q (some set) w s)
    (hnone : ∀ w s, Inv s → Q none w s) :
    (Server.timed Server.graphLens (ImportGraph.importsOf · u (Hash.ofText t))).Meets
      (.alone o) Q w s := by
  rw [Server.meets_timed]
  intro now
  have hs' := h.graph s _ hs ((h.holds s hs).imports.importsOf (s.time now) u (Hash.ofText t))
  change Q (s.graph.importsOf (s.time now) u (Hash.ofText t)).1 w _
  cases hset : (s.graph.importsOf (s.time now) u (Hash.ofText t)).1 with
  | some set => exact hsome set _ _ hs' ((h.holds s hs).importsOf ht _ hset)
  | none => exact hnone _ _ hs'

/-- The imports of a file on the way of a walk. -/
theorem Respects.importsOnTheWay (h : F.Respects o Inv) (hs : Inv s) (u : Url) {t : String}
    (ht : t ∈ F.texts) {Q : Except Failure ImportSet → Server → Server → Prop}
    (hQ : ∀ r w s, Inv s → F.Gives u t r → Q r w s) :
    (Server.importsOnTheWay u t).Meets (.alone o) Q w s := by
  rw [Server.importsOnTheWay, Task.meets_then]
  refine h.held hs u ht (fun set w s hs hset => ?_) fun w s hs => ?_
  · exact hQ _ _ _ hs (.inl hset.symm)
  · exact h.askImports hs u ht hQ

/-- The imports of the file that a walk begins with. -/
theorem Respects.importsOf (h : F.Respects o Inv) (hs : Inv s) (u : Url) {t : String}
    (ht : t ∈ F.texts) {Q : Except Failure ImportSet → Server → Server → Prop}
    (hQ : ∀ r w s, Inv s → F.Gives u t r → Q r w s) :
    (Server.importsOf u t).Meets (.alone o) Q w s := by
  rw [Server.importsOf, Task.meets_then]
  refine h.held hs u ht (fun set w s hs hset => ?_) fun w s hs => ?_
  · exact hQ _ _ _ hs (.inl hset.symm)
  · simp only [Server.record, Task.meets_then, Task.meets_read]
    refine h.askImports hs u ht fun r w s hs hr => ?_
    cases r with
    | error f => exact hQ _ _ _ hs hr
    | ok set =>
      rw [Task.meets_then, Server.meets_timed]
      exact fun now => hQ _ _ _
        (h.graph s _ hs ((h.holds s hs).imports.storeImports ht hr.ok _ _)) hr

/-- Only the first file of a walk has its imports kept; either way they are those of its text. -/
theorem Respects.importsFrom {α : Type} (h : F.Respects o Inv) (hs : Inv s) (root u : Url) {t : String}
    (ht : t ∈ F.texts) {k : Except Failure ImportSet → Server.Job α} {Q : α → Server → Server → Prop}
    (hk : ∀ r w s, Inv s → F.Gives u t r → (k r).Meets (.alone o) Q w s) :
    (if u = root then Server.importsOf u t >>= k
      else Server.importsOnTheWay u t >>= k).Meets (.alone o) Q w s := by
  split
  · exact (Task.meets_then _ _ _).mpr (h.importsOf hs u ht hk)
  · exact (Task.meets_then _ _ _).mpr (h.importsOnTheWay hs u ht hk)

end ImportFacts
end LanguageServer
