import LanguageServer.Proofs.Analysis.StoreRun
import LanguageServer.Server.Documents

/-! What editors tell a server and what becomes of files. As long as a document is not closed and its
file does not change, a fingerprint denotes one text, and when it is or does, what is held for the
document is dropped. -/
namespace LanguageServer

namespace AnalysisStore

/-- What is held for some documents is dropped, and what is on the way for them will not be kept. -/
structure Drops (p : Url → Prop) (s s' : AnalysisStore) : Prop where
  flights : s'.flights = s.flights
  entries : ∀ e ∈ s'.entries.pairs, e ∈ s.entries.pairs ∧ ¬ p e.1
  epoch : ∀ u, ¬ p u → s'.epoch u = s.epoch u
  age : ∀ u, p u → s.age u < s'.age u

variable {p q : Url → Prop} {s s' s'' : AnalysisStore}

theorem Drops.refl (s : AnalysisStore) : Drops (fun _ => False) s s where
  flights := rfl
  entries _ he := ⟨he, id⟩
  epoch _ _ := rfl
  age _ := False.elim

theorem Drops.age_le (h : Drops p s s') (u : Url) : s.age u ≤ s'.age u := by
  by_cases hu : p u
  · exact Nat.le_of_lt (h.age u hu)
  · exact Nat.le_of_eq (by simp only [AnalysisStore.age, h.epoch u hu])

theorem Drops.trans (h : Drops p s s') (h' : Drops q s' s'') : Drops (fun u => p u ∨ q u) s s'' where
  flights := h'.flights.trans h.flights
  entries e he := by
    obtain ⟨he', hq⟩ := h'.entries e he
    obtain ⟨he, hp⟩ := h.entries e he'
    exact ⟨he, not_or.mpr ⟨hp, hq⟩⟩
  epoch u hu := by
    obtain ⟨hp, hq⟩ := not_or.mp hu
    exact (h'.epoch u hq).trans (h.epoch u hp)
  age u hu := by
    obtain hp | hq := hu
    · exact Nat.lt_of_lt_of_le (h.age u hp) (h'.age_le u)
    · exact Nat.lt_of_le_of_lt (h.age_le u) (h'.age u hq)

theorem drops_edit (e : Edit) (s : AnalysisStore) : Drops e.Forgets s (e.apply s) where
  flights := by cases e <;> rfl
  entries x hx := by
    cases e with
    | track f => exact ⟨hx, id⟩
    | forget u =>
      obtain ⟨hx, hu⟩ := Table.mem_erase.mp hx
      exact ⟨hx, fun h => by simp [show u = x.1 from h] at hu⟩
    | clear => simp [Edit.apply, clear, Table.empty] at hx
  epoch _ hu := epoch_edit hu s
  age _ hu := age_edit hu s

end AnalysisStore

namespace Server

/-- What an editor tells a server, and files that change. -/
inductive Event where
  | opened (u : Url) (version : Int) (text : String)
  | changed (u : Url) (version : Int) (edits : List LanguageServer.Edit)
  | saved (u : Url)
  | closed (u : Url)
  | filesChanged (files : FileTree) (told : List Url)

/-- The server after files have changed that it is not told of yet. -/
def withFiles (s : Server) (files : FileTree) : Server :=
  { s with around := { s.around with files } }

def fileText? (s : Server) (u : Url) : Option String := u.toFilePath?.bind s.around.files.text?

/-- The text of a document: the one that the editor shows, or the one of the file. -/
def text? (s : Server) (u : Url) : Option String :=
  ((s.documents.snapshot? u).map (·.text)).or (s.fileText? u)

/-- A document has a fingerprint: as an open one, or as a file. -/
def Names (s : Server) (f : Fingerprint) : Prop :=
  s.documents.fingerprint? f.url = some f ∨ DocumentStore.statOf? s.around.files f.url = some f

namespace Event

def apply : Event → Server → Server
  | .opened u version text, s => (s.openDocument u version text).2
  | .changed u version edits, s => (s.changeDocument u version edits).2
  | .saved u, s => s.saveDocument u
  | .closed u, s => s.closeDocument u
  | .filesChanged files told, s => told.foldl (fun s u => s.fileChanged u) (s.withFiles files)

/-- Documents are opened while they are closed, versions go up while a document is open, and the
server is told of all documents whose files have changed. -/
def IsProper (s : Server) : Event → Prop
  | .opened u _ _ => s.documents.isOpen u = false
  | .changed u version _ => ∀ doc, s.documents.documents.find? u = some doc → doc.version < version
  | .saved _ => True
  | .closed _ => True
  | .filesChanged files told => ∀ u, u ∉ told → (s.withFiles files).fileText? u = s.fileText? u

/-- Whether a document is closed or the server is told that its file has changed. -/
def Forgets (u : Url) : Event → Prop
  | .closed v => v = u
  | .filesChanged _ told => u ∈ told
  | _ => False

end Event

/-- As long as its document is not closed and its file does not change, a fingerprint stands for
this text. The version of an open document may have gone up since. -/
def Denotes (s : Server) (t : String) : Fingerprint → Prop
  | .version u version => ∃ doc, s.documents.documents.find? u = some doc ∧
    version ≤ doc.version ∧ (doc.version = version → doc.text = t)
  | .stat u _ _ => s.fileText? u = some t

variable {s s' : Server} {f : Fingerprint} {t : String} {u : Url}

theorem Denotes.congr (h : s.Denotes t f) (hdocuments : s'.documents = s.documents)
    (hfiles : s'.around.files = s.around.files) : s'.Denotes t f := by
  cases f <;> simpa only [Denotes, fileText?, hdocuments, hfiles] using h

theorem denotes_snapshot (h : s.documents.snapshot? f.url = some ⟨f.url, t, f⟩) : s.Denotes t f := by
  obtain ⟨doc, hdoc, heq⟩ := Option.map_eq_some_iff.mp h
  obtain ⟨-, rfl, hf⟩ := Snapshot.mk.inj heq
  rw [← hf]
  exact ⟨doc, hdoc, Int.le_refl _, fun _ => rfl⟩

theorem stat_of_statOf? {files : FileTree} (h : DocumentStore.statOf? files u = some f) :
    ∃ size modified, f = .stat u size modified := by
  simp only [DocumentStore.statOf?, Option.bind_eq_bind, Option.bind_eq_some_iff] at h
  obtain ⟨path, -, ⟨size, modified⟩, -, hf⟩ := h
  exact ⟨size, modified, (Option.some.inj hf).symm⟩

theorem denotes_stat {files : FileTree} (h : DocumentStore.statOf? files f.url = some f)
    (ht : s.fileText? f.url = some t) : s.Denotes t f := by
  obtain ⟨size, modified, hf⟩ := stat_of_statOf? h
  rw [hf] at ht ⊢
  exact ht

/-- A document that has a fingerprint has the text that the fingerprint stands for, or its file has
it while an editor shows another one. -/
theorem Denotes.text?_or (h : s.Denotes t f) (hf : s.Names f) :
    s.text? f.url = some t ∨ s.documents.isOpen f.url = true ∧ s.fileText? f.url = some t := by
  cases f with
  | version u version =>
    obtain ⟨doc, hdoc, -, htext⟩ := h
    obtain hf | hf := hf
    · obtain ⟨doc', hdoc', heq⟩ := Option.map_eq_some_iff.mp hf
      obtain rfl : doc = doc' := Option.some.inj (hdoc.symm.trans hdoc')
      have ht := htext (Fingerprint.version.inj heq).2
      exact .inl (by simp [Server.text?, DocumentStore.snapshot?, Fingerprint.url, hdoc, ht])
    · obtain ⟨size, modified, heq⟩ := stat_of_statOf? hf
      cases heq
  | stat u size modified =>
    have htext : s.fileText? u = some t := h
    cases hshown : s.documents.documents.find? u with
    | none =>
      simp [Server.text?, DocumentStore.snapshot?, DocumentStore.isOpen, Fingerprint.url, hshown,
        Table.contains_eq_isSome_find?, htext]
    | some doc =>
      refine .inr ⟨?_, htext⟩
      simp [DocumentStore.isOpen, Table.contains_eq_isSome_find?, Fingerprint.url, hshown]

/-- What being told of changed files leaves alone. -/
theorem told_documents (told : List Url) (s : Server) :
    (told.foldl (fun s u => s.fileChanged u) s).documents = s.documents ∧
      (told.foldl (fun s u => s.fileChanged u) s).around = s.around := by
  induction told generalizing s with
  | nil => exact ⟨rfl, rfl⟩
  | cons u told ih => exact ih _

/-- A fingerprint goes on denoting a text until the document is closed or its file changes. -/
theorem Denotes.event {e : Event} (h : s.Denotes t f) (he : e.IsProper s) (hf : ¬ e.Forgets f.url) :
    (e.apply s).Denotes t f := by
  cases e with
  | saved v => exact h
  | filesChanged files told =>
    obtain ⟨hdocuments, haround⟩ := told_documents told (s.withFiles files)
    cases f with
    | version u version =>
      obtain ⟨doc, hdoc, hversion⟩ := h
      exact ⟨doc, hdocuments ▸ hdoc, hversion⟩
    | stat u size modified =>
      have htext := (he u hf).trans h
      simpa only [Denotes, fileText?, Event.apply, haround] using htext
  | opened v version text =>
    cases f with
    | version u version' =>
      obtain ⟨doc, hdoc, hversion⟩ := h
      refine ⟨doc, ?_, hversion⟩
      have hv : (v == u) = false := by
        by_contra hv
        obtain rfl : v = u := by simpa using hv
        simp [Event.IsProper, DocumentStore.isOpen, Table.contains_eq_isSome_find?, hdoc] at he
      simpa [Event.apply, openDocument, shows, DocumentStore.put, Table.find?_insert, hv] using hdoc
    | stat u size modified => exact h
  | changed v version edits =>
    simp only [Event.apply, changeDocument, DocumentStore.change]
    cases hv : s.documents.documents.find? v with
    | none => exact h
    | some old =>
      cases f with
      | version u version' =>
        obtain ⟨doc, hdoc, hversion⟩ := h
        by_cases huv : v = u
        · subst huv
          obtain rfl : old = doc := Option.some.inj (hv.symm.trans hdoc)
          -- the edit raises the version above that of the fingerprint
          have hlt : version' < version := Int.lt_of_le_of_lt hversion.1 (he old hv)
          refine ⟨⟨String.ofList (Edit.applyAll old.text.toList edits), version⟩, ?_,
            Int.le_of_lt hlt, fun heq => absurd heq (Int.ne_of_gt hlt)⟩
          simp [shows, Table.find?_insert]
        · have huv : (v == u) = false := by simpa using huv
          exact ⟨doc, by simpa [shows, Table.find?_insert, huv] using hdoc, hversion⟩
      | stat u size modified => exact h
  | closed v =>
    cases f with
    | version u version =>
      obtain ⟨doc, hdoc, hversion⟩ := h
      have hv : (v == u) = false := by simpa [Event.Forgets, Fingerprint.url] using hf
      refine ⟨doc, ?_, hversion⟩
      simpa [Event.apply, closeDocument, DocumentStore.close, Table.find?_erase, hv] using hdoc
    | stat u size modified => exact h

theorem drops_fileChanged (u : Url) (s : Server) :
    AnalysisStore.Drops (u = ·) s.analyses (s.fileChanged u).analyses := by
  have h := AnalysisStore.drops_edit (.forget u) s.analyses
  simp only [fileChanged]
  split
  · next f _ =>
    have h := h.trans (AnalysisStore.drops_edit (.track f) _)
    simp only [AnalysisStore.Edit.Forgets, or_false] at h
    exact h
  · exact h

/-- What is held for a document is dropped just when it is closed or its file has changed. -/
theorem Event.drops (e : Event) (s : Server) :
    AnalysisStore.Drops e.Forgets s.analyses (e.apply s).analyses := by
  cases e with
  | opened u version text => exact AnalysisStore.drops_edit (.track _) _
  | changed u version edits =>
    simp only [Event.apply, changeDocument]
    split
    · exact AnalysisStore.drops_edit (.track _) _
    · exact .refl _
  | saved u => exact .refl _
  | closed u => exact AnalysisStore.drops_edit (.forget u) _
  | filesChanged files told =>
    simp only [Event.apply]
    generalize hs : s.withFiles files = start
    have hstart : s.analyses = start.analyses := by rw [← hs]; rfl
    rw [hstart]
    clear hs hstart
    induction told generalizing start with
    | nil => simpa [Event.Forgets] using AnalysisStore.Drops.refl start.analyses
    | cons u told ih =>
      have h := (drops_fileChanged u start).trans (ih (start.fileChanged u))
      simpa [Event.Forgets, List.mem_cons, eq_comm] using h

end Server
end LanguageServer
