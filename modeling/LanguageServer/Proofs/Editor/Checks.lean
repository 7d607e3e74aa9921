import LanguageServer.Proofs.Editor.Notices

/-! What a check of a document meets while the document is edited, closed and opened anew: when it
tells diagnostics, which text they are of. -/
namespace LanguageServer.Editor

/-- What has happened in a session, which flights have begun, and whether the server has been needed
and its store is as it was in the last moment. -/
structure World where
  history : List Moment
  flights : List Office.Flight
  isServing : Bool
  isSettled : Bool

/-- A world as the server sees it. -/
def World.scene (w : World) : Office.Scene := ⟨past w.history, w.flights, w.isSettled⟩

/-- A moment passes. -/
def World.next (w : World) (m : Moment) : World :=
  ⟨m :: w.history, w.flights, w.isServing, true⟩

/-- What is true of a session between two moves. -/
structure Sound (compiles : String → String → Analysis → Prop) (w : World) (s : Session) : Prop where
  current : ∃ now older, w.history = now :: older ∧
    now.session.server.documents = s.server.documents ∧
    now.session.server.around.files = s.server.around.files ∧
    now.session.revisions = s.revisions ∧
    (w.isSettled = true → now.session.server.analyses = s.server.analyses) ∧
    ∃ ms, s.outbox = now.session.outbox ++ ms ∧
      ∀ x ∈ ms, IsFounded compiles w.history s.server.documents x
  sourced : Office.Sourced compiles w.scene s.server.analyses
  recalls : ∀ u version t look, Office.Took (.version u version) t look (past w.history) →
    Office.Shut u look (past w.history) ∨ s.server.Denotes t (.version u version)
  tied : s.Tied
  idle : s.isServing = false → s.server.documents = .empty ∧ s.server.analyses = .empty
  serving : w.isServing = true → s.isServing = true

/-- Tasks add flights, and everything else is added to the history. -/
def terms (compiles : String → String → Analysis → Prop) : Contract World Session where
  holds := Sound compiles
  own w v := v.history = w.history ∧ w.flights <:+ v.flights ∧
    (w.isServing = true → v.isServing = true)
  others w v := w.history <:+ v.history ∧ w.flights <:+ v.flights ∧ v.isSettled = true ∧
    (w.isServing = true → v.isServing = true)
  stalls _ := True
  isTotal := False
  isShared := True

variable {compiles : String → String → Analysis → Prop} {w v : World} {s s' : Session} {u : Url}

theorem terms_orderly : (terms compiles).Orderly where
  shared := trivial
  endless := id
  stalls _ := trivial
  own_refl _ := ⟨rfl, List.suffix_rfl, id⟩
  own_trans _ _ _ hv hw := ⟨hw.1.trans hv.1, hv.2.1.trans hw.2.1, hw.2.2 ∘ hv.2.2⟩
  others_trans _ _ _ hv hw := ⟨hv.1.trans hw.1, hv.2.1.trans hw.2.1, hw.2.2.1, hw.2.2.2 ∘ hv.2.2.2⟩
  others_of_own _ _ _ hv hw := ⟨hv.1 ▸ hw.1, hv.2.1.trans hw.2.1, hw.2.2.1, hw.2.2.2 ∘ hv.2.2⟩

theorem others_refl (hw : w.isSettled = true) : (terms compiles).others w w :=
  ⟨List.suffix_rfl, List.suffix_rfl, hw, id⟩

theorem others_next (w : World) (m : Moment) : (terms compiles).others w (w.next m) :=
  ⟨List.suffix_cons _ _, List.suffix_rfl, rfl, id⟩

/-- Documents are left alone, and what is told is founded. -/
theorem Sound.congr (hs : Sound compiles w s)
    (hdocuments : s'.server.documents = s.server.documents)
    (hfiles : s'.server.around.files = s.server.around.files)
    (hanalyses : s'.server.analyses = s.server.analyses) (hrevisions : s'.revisions = s.revisions)
    (hserving : s.isServing = true → s'.isServing = true) {ms : List Message}
    (houtbox : s'.outbox = s.outbox ++ ms)
    (hms : ∀ x ∈ ms, IsFounded compiles w.history s.server.documents x) : Sound compiles w s' where
  current := by
    obtain ⟨now, older, hh, hdocuments', hfiles', hrevisions', hanalyses', ms', houtbox', hms'⟩ :=
      hs.current
    refine ⟨now, older, hh, hdocuments'.trans hdocuments.symm, hfiles'.trans hfiles.symm,
      hrevisions'.trans hrevisions.symm, fun hw => (hanalyses' hw).trans hanalyses.symm, ms' ++ ms,
      by rw [houtbox, houtbox', List.append_assoc], fun x hx => ?_⟩
    rw [hdocuments]
    exact (List.mem_append.mp hx).elim (hms' x) (hms x)
  sourced := hanalyses ▸ hs.sourced
  recalls u version t look ht :=
    (hs.recalls u version t look ht).imp_right fun h => h.congr hdocuments hfiles
  tied u r hr := by
    rw [hdocuments]
    exact hs.tied u r (hrevisions ▸ hr)
  idle h := by
    rw [hdocuments, hanalyses]
    refine hs.idle (Bool.eq_false_iff.mpr fun hserves => ?_)
    rw [hserving hserves] at h
    cases h
  serving h := hserving (hs.serving h)

theorem Sound.post (hs : Sound compiles w s) {x : Message}
    (hx : IsFounded compiles w.history s.server.documents x) : Sound compiles w (s.post x) := by
  unfold Session.post
  split
  · exact hs
  · refine hs.congr rfl rfl rfl rfl id (show _ = s.outbox ++ [x] from rfl) fun y hy => ?_
    exact List.mem_singleton.mp hy ▸ hx

/-- The server that is taken into use has no documents yet, and neither had the one before. -/
theorem Sound.serves (hs : Sound compiles w s) : Sound compiles w s.serving := by
  by_cases hserving : s.isServing = true
  · rw [Session.serving_eq hserving]
    exact hs
  · obtain ⟨hdocuments, hanalyses⟩ := hs.idle (Bool.eq_false_iff.mpr hserving)
    simp only [Session.serving, if_neg hserving]
    exact hs.congr hdocuments.symm rfl hanalyses.symm rfl (fun _ => rfl) (List.append_nil _).symm
      (by simp)

theorem holds_of_aside (w : World) (s s' : Session) (h : Aside s s')
    (hs : (terms compiles).holds w s) : (terms compiles).holds w s' := by
  cases h with
  | serves => exact Sound.serves hs
  | leaves ms h hfiles houtbox hms =>
    exact Sound.congr hs h.documents hfiles h.analyses h.revisions h.isServing.trans houtbox
      fun x hx hmethod => absurd hmethod (hms x hx)

theorem Aside.silent (h : Leaves s s') (hfiles : s'.server.around.files = s.server.around.files)
    (houtbox : s'.outbox = s.outbox) : Aside s s' :=
  .leaves [] h hfiles (by rw [houtbox, List.append_nil]) (by simp)

theorem Aside.refl (s : Session) : Aside s s := .silent ⟨rfl, rfl, rfl, rfl⟩ rfl rfl

theorem aside_post {x : Message} (hx : x.method ≠ "textDocument/publishDiagnostics") (s : Session) :
    Aside s (s.post x) := by
  unfold Session.post
  split
  · exact .refl s
  · exact .leaves [x] ⟨rfl, rfl, rfl, rfl⟩ rfl rfl fun y hy => List.mem_singleton.mp hy ▸ hx

theorem aside_tell {method : String} (hmethod : method ≠ "textDocument/publishDiagnostics")
    (params : Json) : (tell method params).Keeps Aside := Task.keeps_modify (aside_post hmethod)

theorem aside_ask {method : String} (hmethod : method ≠ "textDocument/publishDiagnostics")
    (params : Json) : (ask method params).Keeps Aside := by
  refine Task.Keeps.bind (Task.keeps_update fun s => ?_) fun n => Task.keeps_await fun s a s' hs => ?_
  · show Aside s (Session.post _ { s with next := s.next + 1 })
    unfold Session.post
    split
    · exact .silent ⟨rfl, rfl, rfl, rfl⟩ rfl rfl
    · exact .leaves [_] ⟨rfl, rfl, rfl, rfl⟩ rfl rfl fun y hy => List.mem_singleton.mp hy ▸ hmethod
  · split at hs
    · cases hs
      exact .refl s
    · obtain ⟨answer, -, heq⟩ := Option.map_eq_some_iff.mp hs
      cases heq
      exact .silent ⟨rfl, rfl, rfl, rfl⟩ rfl rfl

theorem aside_sleep (rest : Duration) : (Task.sleep rest : Action Unit).Keeps Aside := by
  refine ⟨fun _ s => .refl s, fun start => ⟨fun t s b s' hs => ?_, fun _ => trivial⟩⟩
  obtain ⟨-, heq⟩ := Option.ite_none_right_eq_some.mp hs
  cases heq
  exact .refl s

/-- A session without its server. -/
structure Rest where
  isServing : Bool
  phase : Phase
  configuration : Configuration
  roots : List Path
  revisions : Table Url Revision
  outbox : List Message
  answers : Table Nat (Option Json)
  next : Nat

def complement : Session.serverLens.Complement Rest where
  rest s := ⟨s.isServing, s.phase, s.configuration, s.roots, s.revisions, s.outbox, s.answers, s.next⟩
  whole server r := ⟨server, r.isServing, r.phase, r.configuration, r.roots, r.revisions, r.outbox,
    r.answers, r.next⟩
  whole_get _ := rfl
  get_whole _ _ := rfl
  rest_whole _ _ := rfl
  set_whole _ _ _ := rfl

theorem depicts : Office.Depicts compiles ((terms compiles).within complement.whole)
    (fun w => w.1.isServing = true) (fun w => w.1.scene) where
  orderly := terms_orderly.within _
  current w s hs := by
    obtain ⟨now, older, hh, hdocuments, hfiles, -, hanalyses, -⟩ := hs.current
    exact ⟨now.office, past older, by simp [World.scene, past, hh], hdocuments, hfiles, hanalyses⟩
  sourced _ _ hs := hs.sourced
  others _ _ hv := ⟨hv.1.map _, hv.2.1, hv.2.2.1, hv.2.2.2⟩
  spares _ _ _ hspares hs :=
    Sound.congr hs hspares.documents hspares.files hspares.analyses rfl id
      (List.append_nil _).symm (by simp)
  stored w s flights a hw hs hflights ha := by
    obtain ⟨now, older, hh, hdocuments, hfiles, hrevisions, -, hposted⟩ := hs.current
    refine ⟨(⟨w.1.history, flights, true, false⟩, w.2), ⟨⟨rfl, hflights, fun _ => rfl⟩, rfl⟩, rfl, rfl,
      ⟨now, older, hh, hdocuments, hfiles, hrevisions, by simp, hposted⟩, ha, hs.recalls, hs.tied,
      fun h => ?_, fun _ => hs.serving hw⟩
    cases (hs.serving hw).symm.trans h

section Compile

variable {compile : Compiler} (hcompile : Office.Compiles compile compiles)
include hcompile

/-- What it comes to that a document is analyzed. -/
structure Analyzed (compiles : String → String → Analysis → Prop) (asked h : List Moment)
    (d : DocumentStore) (u : Url) (r : Except Failure (Option Analysis)) : Prop where
  shown : r = .ok none → d.snapshot? u = none
  found : ∀ a, r = .ok (some a) → ∃ f, f.url = u ∧
    (∀ y, d.snapshot? u = some y → y.fingerprint = f) ∧
    Office.Found compiles (past asked) (past h) f a

theorem analyze_meets {β : Type} {k : Except Failure (Option Analysis) → Action β}
    {Q : β → World → Session → Prop} (hs : Sound compiles w s) (hw : w.isSettled = true)
    (hQ : ∀ b w v s, (terms compiles).own w v → Q b v s → Q b w s)
    (hk : ∀ r v s', Sound compiles v s' → w.history <:+ v.history →
      Analyzed compiles w.history v.history s.serving.server.documents u r →
      (k r).Meets (terms compiles) Q v s') :
    (onServer (Server.analyzeBy compile u) >>= k).Meets (terms compiles) Q w s := by
  rw [Task.meets_then, onServer, Task.meets_then, Task.meets_modify]
  -- the server is in use from now on, and the world is to tell so before the document is read
  refine Contract.meetsFrom_of_own terms_orderly (v := { w with isServing := true })
    (fun r w v s hv h => Contract.meetsFrom_of_own terms_orderly hQ hv h)
    ⟨rfl, List.suffix_rfl, fun _ => rfl⟩ ?_
  have hserves : Sound compiles { w with isServing := true } s.serving :=
    { hs.serves with serving := fun _ => s.isServing_serving }
  refine Task.MeetsFrom.zoom (s := s.serving.server) (r := complement.rest s.serving) complement ?_
  refine (depicts.meets_analyzeBy (w := ({ w with isServing := true }, complement.rest s.serving))
    hcompile hserves ⟨hw, rfl⟩).mono fun r v s' hr => ?_
  obtain ⟨hs', hv, hshown, hfound⟩ := hr
  have hhistory : w.history <:+ v.1.history := by
    obtain rfl | hv := hv
    · exact List.suffix_rfl
    · exact hv.1
  exact hk r v.1 _ hs' hhistory ⟨hshown, hfound⟩

omit hcompile in
/-- An open document was read in the last moment. -/
theorem took_find? {m : Moment} {older h : List Moment} {doc : OpenDocument}
    (hdoc : m.session.server.documents.documents.find? u = some doc) (hh : m :: older <:+ h) :
    Office.Took (.version u doc.version) doc.text (past (m :: older)) (past h) := by
  refine Office.Took.of_suffix (.shown rfl ?_) (hh.map Moment.office)
  exact Option.map_eq_some_iff.mpr ⟨doc, hdoc, rfl⟩

omit hcompile in
/-- A document that was not closed since has the text still that it had at the same version. -/
theorem Sound.stays {m : Moment} {older : List Moment} {doc : OpenDocument}
    (hs : Sound compiles w s) (hh : m :: older <:+ w.history)
    (hdoc : m.session.server.documents.documents.find? u = some doc)
    (hopen : ¬ Office.Shut u (past (m :: older)) (past w.history)) :
    s.server.Denotes doc.text (.version u doc.version) :=
  (hs.recalls u doc.version doc.text _ (took_find? hdoc hh)).resolve_left hopen

section Founded

omit hcompile

variable {asked : Moment} {older : List Moment} {w₁ w₂ : World} {s₁ s₂ : Session} {a : Analysis}
  {doc doc₂ : OpenDocument} (hs₁ : Sound compiles w₁ s₁) (hs₂ : Sound compiles w₂ s₂)
  (hasked : asked :: older <:+ w₁.history) (hlater : w₁.history <:+ w₂.history)
  (hdoc₂ : s₂.server.documents.documents.find? u = some doc₂)

include hs₁ hs₂ hasked hlater hdoc₂ in
/-- A document that was open all the time and has its version still had it in between. -/
theorem Sound.steady (hopen : ¬ Office.Shut u (past (asked :: older)) (past w₂.history))
    (hdoc : asked.session.server.documents.documents.find? u = some doc)
    (hversion : doc₂.version = doc.version) :
    ∃ doc₁, s₁.server.documents.documents.find? u = some doc₁ ∧ doc₁.version = doc₂.version := by
  obtain ⟨now, before, hh, hdocuments, -⟩ := hs₁.current
  obtain ⟨doc₁, hdoc₁, hle, -⟩ := hs₁.stays hasked hdoc fun ⟨m, rest, hm, hrest⟩ =>
    hopen ⟨m, rest, hm.trans (hlater.map _), hrest⟩
  obtain ⟨doc', hsame, hle', -⟩ := hs₂.stays (hh ▸ hlater) (hdocuments ▸ hdoc₁)
    fun ⟨m, rest, hm, hrest, hevent⟩ =>
      hopen ⟨m, rest, hm, (hh ▸ hasked.map Moment.office).trans hrest, hevent⟩
  cases hdoc₂.symm.trans hsame
  exact ⟨doc₁, hdoc₁, by omega⟩

include hs₂ hasked hlater hdoc₂ in
/-- What is found for a document that was open all the time is of its text, or its flight outlasted
the last time that the document was closed. -/
theorem Sound.basis (hopen : ¬ Office.Shut u (past (asked :: older)) (past w₂.history))
    (ha : Office.Found compiles (past w₁.history) (past w₂.history) (.version u doc₂.version) a) :
    Basis compiles w₂.history u doc₂ a.diagnostics := by
  obtain ⟨⟨t, look, hcompiled, ht⟩, id, htold, hlasts⟩ := ha
  obtain ⟨m, rest, hm, hlook, hevent⟩ | ⟨doc', hsame, -, htext⟩ := hs₂.recalls u _ t look ht
  · -- it was closed before the check was scheduled, so before the analysis was asked for
    refine .returned a ⟨t, look, id, m, rest, ht, hcompiled, hm, hlook, hevent, ?_, htold⟩ rfl
    refine hlasts m ?_ ⟨_, hevent, rfl⟩
    obtain hm | hrest := List.suffix_or_suffix_of_suffix hm ((hasked.trans hlater).map _)
    · exact (hm.trans (hasked.map _)).subset List.mem_cons_self
    · obtain heq | hrest := List.suffix_cons_iff.mp hrest
      · exact (hasked.map _).subset (heq ▸ List.mem_cons_self)
      · exact absurd ⟨m, rest, hm, hrest, hevent⟩ hopen
  · cases hdoc₂.symm.trans hsame
    exact .current a (htext rfl ▸ hcompiled) rfl

include hs₁ hs₂ hasked hlater in
/-- What is told of a document that is still as it was when its check was scheduled has a basis: if the
document was not closed since, it has had the same text all the time. -/
theorem Sound.founded {x : Revision} {r : Except Failure (Option Analysis)}
    (hx : asked.session.revisions.find? u = some x)
    (hdoc : asked.session.server.documents.documents.find? u = some doc)
    (hversion : doc.version = x.version) (hnow : s₂.revisions.find? u = some x)
    (hr : Analyzed compiles w₁.history w₂.history s₁.server.documents u r) :
    IsFounded compiles w₂.history s₂.server.documents
      (publication u (diagnosticsOf r) (some x.version)) := by
  intro _
  obtain ⟨doc₂, hdoc₂, hversion₂⟩ := hs₂.tied u x hnow
  refine .inr ⟨u, doc₂, _, by rw [hversion₂], hdoc₂, ?_⟩
  by_cases hshut : Office.Shut u (past (asked :: older)) (past w₂.history)
  · obtain ⟨now, before, hh, -, -, hrevisions, -⟩ := hs₂.current
    have hresumed : Resumed u w₂.history :=
      ⟨now, before, asked, older, hh, hasked.trans hlater, by rw [hx, hrevisions, hnow], hshut⟩
    match r, hr with
    | .error f, _ => exact .unavailable f rfl
    | .ok none, _ => exact .resumed hresumed (.inl rfl)
    | .ok (some a), hr =>
      obtain ⟨f, hf, -, hstems, -⟩ := hr.found a rfl
      exact .resumed hresumed (.inr ⟨f, a, hf, hstems, rfl⟩)
  · obtain ⟨doc₁, hdoc₁, hversion₁⟩ :=
      hs₁.steady hs₂ hasked hlater hdoc₂ hshut hdoc (hversion₂.trans hversion.symm)
    have hshown : s₁.server.documents.snapshot? u = some ⟨u, doc₁.text, .version u doc₂.version⟩ := by
      rw [← hversion₁]
      exact Option.map_eq_some_iff.mpr ⟨doc₁, hdoc₁, rfl⟩
    match r, hr with
    | .error f, _ => exact .unavailable f rfl
    | .ok none, hr => cases hshown.symm.trans (hr.shown rfl)
    | .ok (some a), hr =>
      obtain ⟨f, -, hfound, ha⟩ := hr.found a rfl
      cases hfound _ hshown
      exact hs₂.basis hasked hlater hdoc₂ hshut ha

end Founded

omit hcompile in
theorem find?_of_isCurrent {x : Revision} (h : isCurrent u x.version (some x.edits) s = true) :
    s.revisions.find? u = some x := by
  obtain ⟨y, hy, hsame⟩ := (Option.any_eq_true _ _).mp h
  obtain ⟨hversion, hedits⟩ : y.version = x.version ∧ y.edits = x.edits := by simpa using hsame
  have heq : y = x := by
    cases y
    cases x
    simp_all
  exact heq ▸ hy

omit hcompile in
theorem rests_of_own (w v : World) (s : Session) (hv : (terms compiles).own w v)
    (h : (terms compiles).Rests v s) : (terms compiles).Rests w s := by
  obtain ⟨u, hu, hs⟩ := h
  exact ⟨u, terms_orderly.own_trans _ _ _ hv hu, hs⟩

section Check

variable {asked : Moment} {older : List Moment} {x : Revision} {doc : OpenDocument}
  (hx : asked.session.revisions.find? u = some x)
  (hdoc : asked.session.server.documents.documents.find? u = some doc)
  (hversion : doc.version = x.version)
include hx hdoc hversion

/-- A check of a document as it was when the check was scheduled. -/
theorem check_meets (hs : Sound compiles w s) (hw : w.isSettled = true)
    (hasked : asked :: older <:+ w.history) :
    (check u x.version (some x.edits) compile).Meets (terms compiles)
      (fun _ => (terms compiles).Rests) w s := by
  have hprogress {v : World} {s : Session} (value : List (String × Json)) (hs : Sound compiles v s)
      {Q : Unit → World → Session → Prop} (hQ : ∀ v' s', v' = v ∨ (terms compiles).others v v' →
        Sound compiles v' s' → Q () v' s') : (progress u value).Meets (terms compiles) Q v s :=
    (aside_tell (by decide) _).meetsFrom terms_orderly holds_of_aside hs fun _ => hQ
  -- what was asked, and that all is settled, is not forgotten while others go on
  have hlater {v v' : World} (hv : asked :: older <:+ v.history ∧ v.isSettled = true)
      (hv' : v' = v ∨ (terms compiles).others v v') :
      asked :: older <:+ v'.history ∧ v'.isSettled = true := by
    obtain rfl | hv' := hv'
    · exact hv
    · exact ⟨hv.1.trans hv'.1, hv'.2.2.1⟩
  rw [check, Task.meets_then]
  refine (aside_ask (by decide) _).meetsFrom terms_orderly holds_of_aside hs fun _ v s hv hs => ?_
  have hv := hlater ⟨hasked, hw⟩ hv
  rw [Task.meets_then]
  refine hprogress _ hs fun v' s hv' hs => ?_
  obtain ⟨hasked, hsettled⟩ := hlater hv hv'
  rw [Task.meets_then, diagnose]
  refine analyze_meets hcompile hs hsettled (fun ds w v s hv h =>
    Contract.meetsFrom_of_own terms_orderly (fun _ => rests_of_own) hv h) fun r w s' hs' hw hr => ?_
  have hend {s : Session} (hs : Sound compiles w s) : (progress u [("kind", .string "end"),
      ("message", .string "Checking complete")]).Meets (terms compiles)
        (fun _ => (terms compiles).Rests) w s :=
    hprogress _ hs fun v s _ hs => ⟨v, terms_orderly.own_refl v, hs⟩
  rw [Task.meets_pure, Task.meets_then, Task.meets_read]
  split
  · next hcurrent =>
    refine (Task.meets_then _ _ _).mpr ?_
    rw [publish, tell, Task.meets_modify]
    exact hend (hs'.post (hs.serves.founded hs' hasked hw hx hdoc hversion
      (find?_of_isCurrent hcurrent) hr))
  · exact hend hs'

/-- A check that is to come keeps to the terms. -/
theorem checkLater_ready (rest : Duration) (hw : asked :: older <:+ w.history) :
    (terms compiles).Ready w (checkLater u x.version (some x.edits) rest compile) := by
  intro v s hv hs
  have h : (checkLater u x.version (some x.edits) rest compile).Meets (terms compiles)
      (fun _ => (terms compiles).Rests) v s := by
    rw [checkLater, Task.meets_then]
    refine (aside_sleep rest).meetsFrom terms_orderly holds_of_aside hs fun _ v' s hv' hs => ?_
    obtain ⟨hhistory, hsettled⟩ : w.history <:+ v'.history ∧ v'.isSettled = true := by
      obtain rfl | hv' := hv'
      · exact ⟨hv.1, hv.2.2.1⟩
      · exact ⟨hv.1.trans hv'.1, hv'.2.2.1⟩
    rw [Task.meets_then, Task.meets_read]
    split
    · exact check_meets hcompile hx hdoc hversion hs hsettled (hw.trans hhistory)
    · exact ⟨v', terms_orderly.own_refl v', hs⟩
  unfold checkLater Task.sleep at h ⊢
  exact h

end Check

/-- So does a request for the analysis of a document. -/
theorem request_ready {k : Except Failure (Option Analysis) → Action Unit}
    (hk : ∀ r, (k r).Keeps Aside) :
    (terms compiles).Ready w ((onServer (Server.analyzeBy compile u)).bind k) := by
  intro v s hv hs
  have h : (onServer (Server.analyzeBy compile u) >>= k).Meets (terms compiles)
      (fun _ => (terms compiles).Rests) v s :=
    analyze_meets hcompile hs hv.2.2.1 (fun _ => rests_of_own) fun r v s hs _ _ =>
      (hk r).meetsFrom terms_orderly holds_of_aside hs
        fun _ v s _ hs => ⟨v, terms_orderly.own_refl v, hs⟩
  unfold onServer Task.modify at h ⊢
  exact h

end Compile
end LanguageServer.Editor
