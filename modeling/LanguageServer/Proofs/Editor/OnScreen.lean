import LanguageServer.Proofs.Editor.Checks

/-! Which diagnostics an editor is told of a document, in whatever order documents are opened, edited,
saved and closed and checks and analyses come to their ends: those of the text on screen, unless the
document was closed and opened again. -/
namespace LanguageServer.Editor

variable {compile : Compiler} {compiles : String → String → Analysis → Prop} {w : World}
  {s s' : Session} {u : Url} {h : List Moment} {m n : Machine Session} {e : Option Server.Event}

/-- A notice is taken in by the first move of its task, which is then at its end. -/
theorem Notice.step {x : Notice} (hbelow : ∀ p ∈ m.tasks, p.1 < m.next)
    (hstep : (m.spawn (x.handle compile)).step? m.next = some n) :
    n.state = x.told m.state ∧ ∀ p ∈ n.tasks, p ∈ m.tasks ∨ Scheduled compile n.state p.2 := by
  obtain ⟨t, r, hlookup, hresume, rfl⟩ := Machine.step?_eq_some.mp hstep
  cases (Machine.lookup_spawn hbelow _).symm.trans hlookup
  obtain ⟨e, rfl, hstate, hcancelled, hspawned⟩ := Notice.resume_handle hresume
  have hnobody : e.cancelled = [] := hcancelled
  have hsettled : ((m.spawn (x.handle compile)).settle m.next (e, .done ())).state = e.state := by
    have hdropped : (m.spawn (x.handle compile)).tasks.filter (fun _ => false) = [] := by simp
    simp [Machine.settle, hnobody, List.partition_eq_filter_filter, hdropped]
  refine ⟨hsettled.trans hstate, fun p hp => ?_⟩
  rw [hsettled]
  obtain ⟨hp, hother, -⟩ | ⟨-, hwaits⟩ | hp := (Machine.mem_settle (by simp [hnobody]) p).mp hp
  · refine (List.mem_append.mp hp).imp_right fun hp => ?_
    exact absurd (congrArg Prod.fst (List.mem_singleton.mp hp)) hother
  · cases hwaits
  · exact .inr ((hspawned p hp).resolve_left List.not_mem_nil)

/-- What an editor is to tell, the server is to learn. -/
theorem Notice.IsProper.event {x : Notice} (hx : x.IsProper s)
    (hdocuments : s.serving.server.documents = s.server.documents) :
    (x.event s.serving.server).IsProper s.serving.server := by
  cases x with
  | opened u version text =>
    show s.serving.server.documents.isOpen u = false
    exact hdocuments ▸ hx
  | changed u version edits =>
    show ∀ doc, s.serving.server.documents.documents.find? u = some doc → doc.version < version
    exact hdocuments ▸ hx
  | saved u => trivial
  | closed u => trivial
  | filesChanged us => exact fun v _ => rfl

/-- A moment passes, in which the server learned what it was told. -/
theorem Sound.next {p : Url → Prop} (hs : Sound compiles w s)
    (hdrops : AnalysisStore.Drops p s.server.analyses s'.server.analyses)
    (hp : ∀ u, (Moment.office ⟨e, s'⟩).Forgets u → p u)
    (hdenotes : ∀ u version t, s.server.Denotes t (.version u version) →
      e = some (.closed u) ∨ s'.server.Denotes t (.version u version))
    (htied : s'.Tied)
    (hidle : s'.isServing = false → s'.server.documents = .empty ∧ s'.server.analyses = .empty)
    (hserving : s.isServing = true → s'.isServing = true) :
    Sound compiles (w.next ⟨e, s'⟩) s' where
  current := ⟨_, _, rfl, rfl, rfl, rfl, fun _ => rfl, [], (List.append_nil _).symm, by simp⟩
  sourced := hs.sourced.next hdrops hp
  recalls u version t look ht := by
    obtain hnow | ht := Office.Took.shown_or_before ht
    · exact .inr hnow
    · obtain hshut | hdenotes' := hs.recalls u version t look ht
      · exact .inl (hshut.cons _)
      · refine (hdenotes u version t hdenotes').imp_left fun hclosed => ?_
        exact ⟨_, _, List.suffix_rfl, ht.look_suffix, hclosed⟩
  tied := htied
  idle := hidle
  serving h := hserving (hs.serving h)

/-- A moment passes in which nothing was told of documents. -/
theorem Sound.pass (hs : Sound compiles w s) (hleaves : Leaves s s') :
    Sound compiles (w.next ⟨none, s'⟩) s' := by
  refine hs.next (p := fun _ => False) (hleaves.analyses ▸ .refl _) ?_ (fun u version t h => .inr ?_)
    (fun u r hr => ?_) (fun h => ?_) (fun h => hleaves.isServing.trans h)
  · rintro u ⟨_, heq, -⟩
    cases heq
  · obtain ⟨doc, hdoc⟩ := h
    exact ⟨doc, hleaves.documents ▸ hdoc⟩
  · rw [hleaves.documents]
    exact hs.tied u r (hleaves.revisions ▸ hr)
  · rw [hleaves.documents, hleaves.analyses]
    exact hs.idle (hleaves.isServing ▸ h)

/-- A moment passes in which a notice was taken in. -/
theorem Sound.told (hs : Sound compiles w s) {x : Notice} (hx : x.IsProper s) :
    Sound compiles (w.next ⟨some (x.event s.serving.server), x.told s⟩) (x.told s) := by
  have hserver := x.server_told s
  have hproper : (x.event s.serving.server).IsProper s.serving.server := by
    obtain ⟨now, _, hh, hdocuments, -⟩ := hs.current
    obtain ⟨now', _, hh', hdocuments', -⟩ := hs.serves.current
    cases hh.symm.trans hh'
    exact hx.event (hdocuments'.symm.trans hdocuments)
  refine hs.serves.next (hserver ▸ (x.event s.serving.server).drops s.serving.server) ?_
    (fun u version t h => ?_) (x.tied_told hs.serves.tied) (fun h => ?_) (fun _ => x.isServing_told s)
  · rintro u ⟨_, heq, hforgets⟩
    cases heq
    exact hforgets
  · rw [hserver]
    by_cases hclosed : x.event s.serving.server = .closed u
    · exact .inl (congrArg some hclosed)
    · exact .inr (h.event_shown hproper hclosed)
  · cases (x.isServing_told s).symm.trans h

namespace Run

theorem numbered (hr : Run compile h m) : ∀ p ∈ m.tasks, p.1 < m.next := by
  have hspawn {m : Machine Session} (hm : ∀ p ∈ m.tasks, p.1 < m.next) (t : Action Unit) :
      ∀ p ∈ (m.spawn t).tasks, p.1 < (m.spawn t).next := by
    refine List.forall_mem_append.mpr ⟨fun p hp => Nat.lt_succ_of_lt (hm p hp), ?_⟩
    simp [Machine.spawn]
  induction hr with
  | start around c => exact fun p hp => absurd hp List.not_mem_nil
  | move _ hmoves ih =>
    cases hmoves with
    | task i hstep => exact Machine.below_step ih hstep
    | notice x _ hstep => exact Machine.below_step (hspawn ih _) hstep
  | request u _ _ ih => exact hspawn ih _
  | beside _ _ ih => exact hspawn ih _
  | other s t _ _ ih => exact ih

theorem head (hr : Run compile h m) : ∃ e older, h = ⟨e, m.state⟩ :: older := by
  induction hr with
  | start around c => exact ⟨none, [], rfl⟩
  | move _ _ _ => exact ⟨_, _, rfl⟩
  | request u _ _ ih => exact ih
  | beside _ _ ih => exact ih
  | other s t _ _ _ => exact ⟨_, _, rfl⟩

variable (hcompile : Office.Compiles compile compiles)
include hcompile

/-- All tasks of a session keep to the terms, and what happens beside them leaves the terms true. -/
theorem binds (hr : Run compile h m) :
    ∃ flights isServing, (terms compiles).Binds ⟨h, flights, isServing, true⟩ m := by
  induction hr with
  | start around c =>
    refine ⟨[], false, ⟨⟨_, [], rfl, rfl, rfl, rfl, fun _ => rfl, [], rfl, by simp⟩, .start rfl,
      fun u version t look ht => ?_, fun u r hr => ?_, fun _ => ⟨rfl, rfl⟩, by simp⟩, ?_⟩
    · obtain hnow | ht := Office.Took.shown_or_before ht
      · exact .inr hnow
      · cases ht
    · cases hr
    · simp [Machine.start]
  | @move h m n e hr hmoves ih =>
    obtain ⟨flights, b, ih⟩ := ih
    cases hmoves with
    | task i hstep =>
      obtain ⟨⟨h', flights', b', _⟩, ⟨hh, -⟩, hn⟩ := ih.step terms_orderly (others_refl rfl) hstep
      cases hh
      exact ⟨flights', b', hn.others terms_orderly (others_next _ ⟨none, n.state⟩)
        (hn.holds.pass ⟨rfl, rfl, rfl, rfl⟩) n.now⟩
    | notice x hx hstep =>
      obtain ⟨hstate, htasks⟩ := Notice.step hr.numbered hstep
      have hs := ih.holds.told hx
      rw [← hstate] at hs
      refine ⟨flights, b, hs, fun p hp => ?_⟩
      obtain hp | ⟨u, r, rest, hr, hcheck⟩ := htasks p hp
      · exact (ih.ready p hp).others terms_orderly (others_next _ _)
      · -- a check that the notice has scheduled is of the document as it is now
        obtain ⟨doc, hdoc, hversion⟩ := hs.tied u r hr
        exact hcheck ▸ checkLater_ready hcompile hr hdoc hversion rest List.suffix_rfl
  | request u _ hk ih =>
    obtain ⟨flights, b, ih⟩ := ih
    exact ⟨flights, b, ih.spawn (request_ready hcompile hk)⟩
  | beside _ ht ih =>
    obtain ⟨flights, b, ih⟩ := ih
    exact ⟨flights, b, ih.spawn fun v s hv hs => ht.meetsFrom terms_orderly holds_of_aside hs
      fun _ v s _ hs => ⟨v, terms_orderly.own_refl v, hs⟩⟩
  | other s t _ hs ih =>
    obtain ⟨flights, b, ih⟩ := ih
    exact ⟨flights, b, ih.others terms_orderly (others_next _ ⟨none, s⟩) (ih.holds.pass hs) t⟩

/-- Whatever diagnostics a move tells of a document with a version, the document is open at this
version, and they are those of its text, unless the document was closed and came to the same version
again. Of a closed document none are told. -/
theorem publishes (hr : Run compile h m) (hmoves : Moves compile m e n) :
    ∃ ms, n.state.outbox = m.state.outbox ++ ms ∧
      ∀ x ∈ ms, IsFounded compiles h n.state.server.documents x := by
  cases hmoves with
  | task i hstep =>
    obtain ⟨flights, b, hm⟩ := hr.binds hcompile
    obtain ⟨e, older, hhead⟩ := hr.head
    obtain ⟨⟨h', flights', b', _⟩, ⟨hh, -⟩, hn⟩ := hm.step terms_orderly (others_refl rfl) hstep
    obtain ⟨now, older', hh', -, -, -, -, hms⟩ := hn.holds.current
    cases hh
    cases hhead.symm.trans hh'
    exact hms
  | notice x _ hstep =>
    obtain ⟨hstate, -⟩ := Notice.step hr.numbered hstep
    obtain ⟨ms, houtbox, hms⟩ := x.outbox_told m.state
    exact ⟨ms, hstate ▸ houtbox, fun x hx _ => .inl (hms x hx)⟩

end Run

/-! A run in which what is told is old: a document is closed while it is checked, and opened again with
another text under the same version. -/

section Reopened

open Office (echo echoing)

/-- A history and the machine that it has led to. -/
abbrev Stage := List Moment × Machine Session

/-- Something that happens next. -/
inductive Turn where
  | opens (text : String)
  | closes
  | moves (i : TaskId)
  | passes

/-- The process runs, and the editor has answered all that it was asked. -/
def Session.attended (s : Session) : Session :=
  { s with
    server := { s.server with client := { s.server.client with phase := .running } }
    answers := (List.range s.next).foldl (fun answers n => answers.insert n none) s.answers }

def Stage.told (x : Notice) (r : Stage) : Option Stage :=
  ((r.2.spawn (x.handle echoing)).step? r.2.next).map fun n =>
    (⟨some (x.event r.2.state.serving.server), n.state⟩ :: r.1, n)

def Stage.take (r : Stage) : Turn → Option Stage
  | .opens text =>
    if r.2.state.server.documents.isOpen default then none else r.told (.opened default 1 text)
  | .closes => r.told (.closed default)
  | .moves i => (r.2.step? i).map fun n => (⟨none, n.state⟩ :: r.1, n)
  | .passes => some (⟨none, r.2.state.attended⟩ :: r.1,
    { r.2 with state := r.2.state.attended, now := r.2.now.after restAfterOpening })

theorem run_told {r q : Stage} {x : Notice} (hr : Run echoing r.1 r.2) (hx : x.IsProper r.2.state)
    (hq : r.told x = some q) : Run echoing q.1 q.2 := by
  obtain ⟨n, hn, rfl⟩ := Option.map_eq_some_iff.mp hq
  exact hr.move (.notice x hx hn)

theorem run_take {r q : Stage} {t : Turn} (hr : Run echoing r.1 r.2) (hq : r.take t = some q) :
    Run echoing q.1 q.2 := by
  cases t with
  | opens text =>
    obtain ⟨hclosed, hq⟩ := Option.ite_none_left_eq_some.mp hq
    exact run_told (x := .opened default 1 text) hr (Bool.eq_false_iff.mpr hclosed) hq
  | closes => exact run_told (x := .closed default) hr trivial hq
  | moves i =>
    obtain ⟨n, hn, rfl⟩ := Option.map_eq_some_iff.mp hq
    exact hr.move (.task i hn)
  | passes =>
    cases hq
    exact hr.other _ _ ⟨rfl, rfl, rfl, rfl⟩

theorem run_takes {ts : List Turn} {r q : Stage} (hr : Run echoing r.1 r.2)
    (hq : ts.foldlM Stage.take r = some q) : Run echoing q.1 q.2 := by
  induction ts generalizing r with
  | nil =>
    cases hq
    exact hr
  | cons t ts ih =>
    obtain ⟨r', ht, hts⟩ := Option.bind_eq_some_iff.mp hq
    exact ih (run_take hr ht) hts

def beginning : Stage :=
  let s := Session.new ⟨.empty, [], .scripted none, [], 0, none⟩ {}
  ([⟨none, s⟩], .start s)

/-- Up to where the check of the first text has its analysis: the document has been closed and opened
again, and the check of the second text has not begun. -/
def reopening : List Turn :=
  [.opens "int a;", .moves 1, .passes, .moves 1, .passes, .moves 1, .closes, .opens "int b;", .moves 2]

/-- The check that was asked for before the document was closed tells the diagnostics of the old text,
under the version that the new one has. -/
theorem Run.publishes_reopened : ∃ (r : Stage) (n : Machine Session), Run echoing r.1 r.2 ∧
    Moves echoing r.2 none n ∧
    (∃ ms, n.state.outbox = r.2.state.outbox ++ ms ∧ ∀ x ∈ ms,
      IsFounded (fun t _ a => a = echo t) r.1 n.state.server.documents x) ∧
    (n.state.outbox.drop r.2.state.outbox.length).head? =
      some (publication default (echo "int a;").diagnostics (some 1)) ∧
    n.state.server.documents.documents.find? default = some ⟨"int b;", 1⟩ := by
  have htold : ((reopening.foldlM Stage.take beginning).bind fun r => (r.2.step? 1).map fun n =>
      ((n.state.outbox.drop r.2.state.outbox.length).head?,
        n.state.server.documents.documents.find? default)) =
      some (some (publication default (echo "int a;").diagnostics (some 1)), some ⟨"int b;", 1⟩) := rfl
  obtain ⟨r, hr, htold⟩ := Option.bind_eq_some_iff.mp htold
  obtain ⟨n, hn, htold⟩ := Option.map_eq_some_iff.mp htold
  have hrun : Run echoing r.1 r.2 := run_takes (.start _ _) hr
  exact ⟨r, n, hrun, .task 1 hn, hrun.publishes Office.compiles_echoing (.task 1 hn),
    congrArg Prod.fst htold, congrArg Prod.snd htold⟩

end Reopened
end LanguageServer.Editor
