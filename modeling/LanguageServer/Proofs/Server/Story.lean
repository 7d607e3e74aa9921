import LanguageServer.Proofs.Server.Reading
import LanguageServer.Proofs.Server.Survey
import Mathlib.Data.List.Chain

/-! What the history of a survey tells: what was read of a file and not spoiled since is what there
is to read, and an epoch that has not moved tells that nothing was spoiled. -/
namespace LanguageServer.Survey

variable {u : Url} {look told noted h h' : List Moment} {m : Moment}

theorem unspoiled_of_suffix (hl : h <:+ look) : Unspoiled u look h := fun _ _ hm ho =>
  absurd (hl.trans ho) (Logbook.not_suffix_of_cons_suffix hm)

theorem Unspoiled.of_suffix (hu : Unspoiled u look h) (hh : h' <:+ h) : Unspoiled u look h' :=
  fun m older hm => hu m older (hm.trans hh)

theorem Unspoiled.cons (hu : Unspoiled u look h) (hm : ¬ m.Spoils u) :
    Unspoiled u look (m :: h) := fun n older hn ho => by
  obtain hn | hn := List.suffix_cons_iff.mp hn
  · cases hn
    exact hm
  · exact hu n older hn ho

/-- What counted when something else was noted, counts as long as what was noted then. -/
theorem Unspoiled.trans (hu : Unspoiled u told h') (hn : Unspoiled u noted h)
    (hnoted : noted <:+ h') (hh : h' <:+ h) : Unspoiled u told h := fun m older hm ho => by
  obtain hin | hin := List.suffix_or_suffix_of_suffix hm hh
  · exact hu m older hin ho
  · obtain heq | hin := List.suffix_cons_iff.mp hin
    · exact hu m older (heq ▸ List.suffix_rfl) ho
    · exact hn m older hm (hnoted.trans hin)

namespace Moment

def epoch (m : Moment) (u : Url) : Nat := m.server.graph.epoch u

def generation (m : Moment) : Nat := m.server.graph.generation

/-- What there is to read of a document: the open one, and the text of its file. -/
def shows (m : Moment) (u : Url) : Option Snapshot × Option String :=
  (m.server.documents.snapshot? u, m.server.fileText? u)

/-- How a moment follows another one. -/
structure Follows (m p : Moment) : Prop where
  configuration : m.server.configuration = p.server.configuration
  generation : p.generation ≤ m.generation
  epoch : ∀ u, p.epoch u ≤ m.epoch u
  moved : ∀ u, m.Spoils u → p.generation < m.generation ∨ p.epoch u < m.epoch u
  snapshot : ∀ u, ¬ m.Spoils u →
    m.server.documents.snapshot? u = p.server.documents.snapshot? u

end Moment

/-- A history in which every moment follows the one before. -/
abbrev Story (h : List Moment) : Prop := h.IsChain Moment.Follows

variable {p : Moment} {k l : List Moment}

theorem Story.of_suffix (hs : Story h) (hh : h' <:+ h) : Story h' := List.IsChain.suffix hs hh

theorem Story.head (hs : Story (m :: p :: k)) : m.Follows p := (List.isChain_cons_cons.mp hs).1

/-- Counters never go back. -/
theorem Story.counts (hs : Story (m :: k)) (hp : p :: l <:+ m :: k) :
    p.generation ≤ m.generation ∧ ∀ u, p.epoch u ≤ m.epoch u := by
  induction k generalizing m with
  | nil =>
    obtain hp | hp := List.suffix_cons_iff.mp hp
    · cases hp
      exact ⟨Nat.le_refl _, fun _ => Nat.le_refl _⟩
    · simp at hp
  | cons n k ih =>
    obtain hp | hp := List.suffix_cons_iff.mp hp
    · cases hp
      exact ⟨Nat.le_refl _, fun _ => Nat.le_refl _⟩
    · obtain ⟨hgeneration, hepoch⟩ := ih (hs.of_suffix (List.suffix_cons _ _)) hp
      exact ⟨hgeneration.trans hs.head.generation, fun u => (hepoch u).trans (hs.head.epoch u)⟩

theorem Story.configuration (hs : Story (m :: k)) (hp : p ∈ m :: k) :
    p.server.configuration = m.server.configuration := by
  induction k generalizing m with
  | nil => cases List.mem_singleton.mp hp; rfl
  | cons n k ih =>
    obtain rfl | hp := List.mem_cons.mp hp
    · rfl
    · exact (ih (hs.of_suffix (List.suffix_cons _ _)) hp).trans hs.head.configuration.symm

/-- An epoch that is as it was noted, in the generation that it was noted in, tells that nothing was
spoiled since. -/
theorem Story.unspoiled {q : Moment} {o : List Moment} (hs : Story (m :: k))
    (hp : p :: l <:+ m :: k) (hq : q :: o <:+ p :: l) (hgeneration : m.generation = q.generation)
    (hepoch : m.epoch u = p.epoch u) : Unspoiled u (p :: l) (m :: k) := fun n older hn ho hspoils => by
  have hnow := hs.counts hn
  have hn' := hs.of_suffix hn
  have hbegun := (hs.of_suffix hp).counts hq
  cases older with
  | nil => simp at ho
  | cons x older =>
    have hmoved := hn'.head.moved u hspoils
    have hthen := (hn'.of_suffix (List.suffix_cons _ _)).counts ho
    have := hnow.2 u
    have := hthen.2 u
    omega

/-- Whenever the text of a file changes, that is told then or later. -/
def Settled (u : Url) (h : List Moment) : Prop :=
  ∀ m p older, m :: p :: older <:+ h → (m.shows u).2 ≠ (p.shows u).2 →
    ∃ n rest, n :: rest <:+ h ∧ m :: p :: older <:+ n :: rest ∧ n.Spoils u

/-- What the editor shows of a document stays as it is until the document is spoiled. -/
theorem Story.snapshot?_eq (hs : Story (m :: k)) (hu : Unspoiled u (p :: l) (m :: k))
    (hp : p :: l <:+ m :: k) :
    m.server.documents.snapshot? u = p.server.documents.snapshot? u := by
  induction k generalizing m with
  | nil =>
    obtain hp | hp := List.suffix_cons_iff.mp hp
    · cases hp; rfl
    · simp at hp
  | cons n k ih =>
    obtain hp | hp := List.suffix_cons_iff.mp hp
    · cases hp; rfl
    · have hsuffix : n :: k <:+ m :: n :: k := List.suffix_cons _ _
      have hspoils : ¬ m.Spoils u := hu m (n :: k) List.suffix_rfl hp
      exact (hs.head.snapshot u hspoils).trans (ih (hs.of_suffix hsuffix) (hu.of_suffix hsuffix) hp)

/-- What counts of a document is all there is to read of it. -/
theorem Story.shows_eq (hs : Story h) (hu : Unspoiled u (p :: l) h) (hsettled : Settled u h)
    (hm : m :: k <:+ h) (hp : p :: l <:+ m :: k) : m.shows u = p.shows u := by
  refine Prod.ext ((hs.of_suffix hm).snapshot?_eq (hu.of_suffix hm) hp) ?_
  induction k generalizing m with
  | nil =>
    obtain hp | hp := List.suffix_cons_iff.mp hp
    · cases hp; rfl
    · simp at hp
  | cons n k ih =>
    obtain hp | hp := List.suffix_cons_iff.mp hp
    · cases hp; rfl
    · rw [← ih ((List.suffix_cons _ _).trans hm) hp]
      by_contra hchanged
      obtain ⟨x, rest, hx, hlater, hspoils⟩ := hsettled m n k hm hchanged
      refine hu x rest hx ?_ hspoils
      obtain heq | hlater := List.suffix_cons_iff.mp hlater
      · cases heq
        exact hp
      · exact hp.trans ((List.suffix_cons _ _).trans hlater)

/-- What a document shows at a moment, with its fingerprint then. -/
def Moment.shown? (m : Moment) (u : Url) : Option Snapshot :=
  DocumentStore.read? m.server.documents m.server.around.files u

theorem Moment.text?_eq (m : Moment) (u : Url) :
    m.server.text? u = ((m.shows u).1.map (·.text)).or (m.shows u).2 := rfl

theorem Saw.exists_cons {x : Option Snapshot} {seen : List Moment} (hx : Saw u x look seen) :
    ∃ n l, seen = n :: l := by
  cases hx with
  | shown => exact ⟨_, _, rfl⟩
  | onDisk => exact ⟨_, _, rfl⟩

/-- A file without a status has no text. -/
theorem fileText?_of_statOf? {s : Server} (h : DocumentStore.statOf? s.around.files u = none) :
    s.fileText? u = none := by
  cases hp : u.toFilePath? with
  | none => simp [Server.fileText?, hp]
  | some path =>
    cases ht : s.around.files.text? path with
    | none => simp [Server.fileText?, hp, ht]
    | some text =>
      obtain ⟨status, hstatus⟩ := Option.isSome_iff_exists.mp (FileTree.status?_isSome ht)
      simp [DocumentStore.statOf?, hp, hstatus] at h

theorem Moment.shown?_of_open {x : Snapshot} (h : m.server.documents.snapshot? u = some x) :
    m.shown? u = some x := by
  rw [Moment.shown?, DocumentStore.read?, h]
  rfl

theorem Moment.shown?_of_closed (h : m.server.documents.snapshot? u = none) :
    m.shown? u = (DocumentStore.statOf? m.server.around.files u).bind fun f =>
      (m.server.fileText? u).map fun t => ⟨u, t, f⟩ := by
  rw [Moment.shown?, DocumentStore.read?, h, Option.none_or, DocumentStore.fromDisk?,
    Server.fileText?]
  cases DocumentStore.statOf? m.server.around.files u with
  | none => rfl
  | some f =>
    cases u.toFilePath? with
    | none => rfl
    | some path => cases ht : m.server.around.files.text? path <;> simp [ht]

theorem Moment.text?_shown? (m : Moment) (u : Url) :
    (m.shown? u).map (·.text) = m.server.text? u := by
  cases hopen : m.server.documents.snapshot? u with
  | some x =>
    rw [Moment.shown?_of_open hopen, Server.text?, hopen]
    rfl
  | none =>
    rw [Moment.shown?_of_closed hopen, Server.text?, hopen]
    cases hstat : DocumentStore.statOf? m.server.around.files u with
    | none => rw [fileText?_of_statOf? hstat]; rfl
    | some f => cases m.server.fileText? u <;> rfl

/-- What was seen of a document, and still counts, is the text that it has, and it went by the
fingerprint under which it was seen. -/
theorem Saw.counts {x : Option Snapshot} (hx : Saw u x look (p :: l)) (hs : Story (m :: k))
    (hu : Unspoiled u look (m :: k)) (hsettled : Settled u (m :: k)) (hseen : p :: l <:+ m :: k) :
    m.server.text? u = x.map (·.text) ∧
      ∀ y, x = some y → ∃ b ∈ m :: k, b.shown? u = some y := by
  cases hx with
  | @shown _ _ y hsnapshot =>
    have hnow := hs.shows_eq hu hsettled List.suffix_rfl hseen
    refine ⟨?_, fun z hz => ⟨p, hseen.subset List.mem_cons_self, ?_⟩⟩
    · rw [Moment.text?_eq, hnow, ← Moment.text?_eq, Server.text?, hsnapshot]
      rfl
    · cases hz
      exact Moment.shown?_of_open hsnapshot
  | @onDisk a b _ _ _ _ hsnapshot hlook hlater =>
    have hmid := hs.shows_eq hu hsettled (hlater.trans hseen) hlook
    have hend := hs.shows_eq hu hsettled hseen (hlook.trans hlater)
    have hnow := hs.shows_eq hu hsettled List.suffix_rfl ((hlook.trans hlater).trans hseen)
    have hclosed : b.server.documents.snapshot? u = none :=
      (congrArg Prod.fst hmid).trans hsnapshot
    have htext : p.server.fileText? u = b.server.fileText? u :=
      (congrArg Prod.snd hend).trans (congrArg Prod.snd hmid).symm
    have hm : m.server.text? u = b.server.fileText? u := by
      rw [Moment.text?_eq, hnow, ← hmid, Moment.shows, hclosed]
      rfl
    cases hstat : DocumentStore.statOf? b.server.around.files u with
    | none => exact ⟨by rw [hm, fileText?_of_statOf? hstat]; rfl, by simp⟩
    | some f =>
      rw [Option.bind_some, htext]
      refine ⟨by rw [hm]; cases b.server.fileText? u <;> rfl, fun y hy => ?_⟩
      refine ⟨b, (hlater.trans hseen).subset List.mem_cons_self, ?_⟩
      rw [Moment.shown?_of_closed hclosed, hstat, Option.bind_some, hy]

end LanguageServer.Survey
