import LanguageServer.Proofs.Analysis.Sharing
import LanguageServer.Proofs.Server.Sources
import LanguageServer.Proofs.Server.Starting

/-! Asking a server for an analysis, under any contract by which it is known from which texts and by
which flights its store has what it holds. -/
namespace LanguageServer.Office

open AnalysisStore (flight)

/-- A way to compile that spares documents, files and analyses, and what it makes of a text. -/
structure Compiles (compile : String → String → Server.Job (Except Failure Analysis))
    (compiles : String → String → Analysis → Prop) : Prop where
  keeps : ∀ text filename, (compile text filename).Keeps Server.Spares
  gives : ∀ text filename, (compile text filename).Gives fun r => ∀ a, r = .ok a →
    compiles text filename a

/-- An analysis was found under a fingerprint. The flight that told it had not landed whenever the
document was forgotten until it was asked for. -/
def Found (compiles : String → String → Analysis → Prop) (asked h : List Moment) (f : Fingerprint)
    (a : Analysis) : Prop :=
  Stems compiles h f a ∧ ∃ id, (∃ m ∈ h, m.outcome? id = some (.ok a)) ∧ Outlasts id f.url asked

/-- What had not landed later had not landed earlier either. -/
theorem Found.of_suffix {compiles : String → String → Analysis → Prop} {asked earlier h : List Moment}
    {f : Fingerprint} {a : Analysis} (ha : Found compiles asked h f a) (he : earlier <:+ asked) :
    Found compiles earlier h f a := by
  obtain ⟨hstems, id, htold, hlasts⟩ := ha
  exact ⟨hstems, id, htold, fun m hm => hlasts m (he.subset hm)⟩

/-- The worlds of a contract on a server tell a scene each. Documents and files are as in its last
moment, and so is the store if it is settled. What the store has is sourced, and from the day on when
the server is in use a task may change it to what is sourced again. -/
structure Depicts {ω : Type} (compiles : String → String → Analysis → Prop) (c : Contract ω Server)
    (inUse : ω → Prop) (scene : ω → Scene) : Prop where
  orderly : c.Orderly
  current : ∀ w s, c.holds w s → ∃ now older, (scene w).history = now :: older ∧
    now.server.documents = s.documents ∧ now.server.around.files = s.around.files ∧
    ((scene w).isSettled = true → now.server.analyses = s.analyses)
  sourced : ∀ w s, c.holds w s → Sourced compiles (scene w) s.analyses
  others : ∀ w v, c.others w v → (scene w).history <:+ (scene v).history ∧
    (scene w).flights <:+ (scene v).flights ∧ (scene v).isSettled = true ∧ (inUse w → inUse v)
  spares : ∀ w s s', Server.Spares s s' → c.holds w s → c.holds w s'
  stored : ∀ w s flights a, inUse w → c.holds w s → (scene w).flights <:+ flights →
    Sourced compiles ⟨(scene w).history, flights, false⟩ a → ∃ v, c.own w v ∧ inUse v ∧
      scene v = ⟨(scene w).history, flights, false⟩ ∧ c.holds v { s with analyses := a }

/-- The store is as it was in the last moment, and the server is in use. -/
def Calm {ω : Type} (inUse : ω → Prop) (scene : ω → Scene) (w : ω) : Prop :=
  (scene w).isSettled = true ∧ inUse w

/-- A world, or what has become of it while a task waited. -/
def Onward {ω : Type} (c : Contract ω Server) (w v : ω) : Prop := v = w ∨ c.others w v

namespace Depicts

variable {ω : Type} {compiles : String → String → Analysis → Prop} {c : Contract ω Server}
  {inUse : ω → Prop} {scene : ω → Scene} (hd : Depicts compiles c inUse scene) {v w : ω} {s : Server}
  {u : Url}

include hd

theorem later (hw : inUse w) (hv : c.others w v) :
    (scene w).history <:+ (scene v).history ∧ (scene w).flights <:+ (scene v).flights ∧
      Calm inUse scene v := by
  obtain ⟨hhistory, hflights, hsettled, hstays⟩ := hd.others w v hv
  exact ⟨hhistory, hflights, hsettled, hstays hw⟩

theorem onward (hw : Calm inUse scene w) (hv : Onward c w v) :
    (scene w).history <:+ (scene v).history ∧ (scene w).flights <:+ (scene v).flights ∧
      Calm inUse scene v := by
  obtain rfl | hv := hv
  · exact ⟨List.suffix_rfl, List.suffix_rfl, hw⟩
  · exact hd.later hw.2 hv

theorem onward_trans {v' : ω} (hv : Onward c w v) (hv' : Onward c v v') : Onward c w v' := by
  obtain rfl | hv := hv
  · exact hv'
  · obtain rfl | hv' := hv'
    · exact .inr hv
    · exact .inr (hd.orderly.others_trans _ _ _ hv hv')

theorem told (hs : c.holds w s) (hw : Calm inUse scene w) {id : FlightId} {a : Analysis}
    (ha : s.analyses.flights.outcome? id = some (.ok a)) :
    ∃ m ∈ (scene w).history, m.outcome? id = some (.ok a) := by
  obtain ⟨now, older, hh, -, -, hanalyses⟩ := hd.current w s hs
  refine ⟨now, hh ▸ List.mem_cons_self, ?_⟩
  rw [Moment.outcome?, hanalyses hw.1, ha]

theorem parks (hs : c.holds w s) {P : ω → Server → Prop} (hP : ∀ v s, c.others w v →
    c.holds v s → P v s) : c.Parks w s P := ⟨w, hd.orderly.own_refl w, hs, hP⟩

/-- A document is read at once from the editor, or in two steps from its file. -/
theorem meets_document? (hs : c.holds w s) {Q : Option Snapshot → ω → Server → Prop}
    (hshown : ∀ x, s.documents.snapshot? u = some x → Q (some x) w s)
    (hnone : ∀ v s', s.documents.snapshot? u = none → Onward c w v → c.holds v s' → Q none v s')
    (hfile : ∀ v o v' p f path t, s.documents.snapshot? u = none → Onward c w v → c.holds v o →
      DocumentStore.statOf? o.around.files u = some f → u.toFilePath? = some path →
      Onward c v v' → c.holds v' p → p.around.files.text? path = some t →
        Q (some ⟨u, t, f⟩) v' p) :
    (Server.document? u).Meets c Q w s := by
  rw [Server.document?, Task.meets_then, Task.meets_read]
  cases hx : s.documents.snapshot? u with
  | some x => exact hshown x hx
  | none =>
    dsimp only
    split
    · exact hnone w s hx (.inl rfl) hs
    · next path hpath =>
      rw [Task.meets_then, Task.meets_giveWay]
      refine hd.parks hs fun v o hv ho => ?_
      rw [Task.meets_then, Task.meets_read]
      cases hstat : DocumentStore.statOf? o.around.files u with
      | none => exact hnone v o hx (.inr hv) ho
      | some f =>
        dsimp only
        rw [Task.meets_then, Task.meets_giveWay]
        refine hd.parks ho fun v' p hv' hp => ?_
        rw [Task.meets_then, Task.meets_read]
        cases htext : p.around.files.text? path with
        | none => exact hnone v' p hx (hd.onward_trans (.inr hv) (.inr hv')) hp
        | some t => exact hfile v o v' p f path t hx (.inr hv) ho hstat hpath (.inr hv') hp htext

/-- What an editor shows is read in the last moment. -/
theorem took_shown (hs : c.holds w s) {x : Snapshot} (hx : s.documents.snapshot? u = some x) :
    Took x.fingerprint x.text (scene w).history (scene w).history := by
  obtain ⟨doc, -, rfl⟩ := Option.map_eq_some_iff.mp hx
  obtain ⟨now, older, hh, hdocuments, -⟩ := hd.current w s hs
  rw [hh]
  exact .shown rfl ((congrArg (·.snapshot? u) hdocuments).trans hx)

/-- What a file has is read under the fingerprint that the file had when it was looked at. -/
theorem took_onDisk {o p : Server} (ho : c.holds w o) (hp : c.holds v p)
    (hv : (scene w).history <:+ (scene v).history) {f : Fingerprint} {path : Path} {t : String}
    (hf : DocumentStore.statOf? o.around.files u = some f) (hpath : u.toFilePath? = some path)
    (ht : p.around.files.text? path = some t) : Took f t (scene w).history (scene v).history := by
  obtain ⟨size, modified, rfl⟩ := Server.stat_of_statOf? hf
  obtain ⟨seen, _, hw, -, hfiles, -⟩ := hd.current w o ho
  obtain ⟨now, older, hh, -, hfiles', -⟩ := hd.current v p hp
  rw [hh] at hv ⊢
  refine .onDisk hw hv (hfiles.symm ▸ hf) ?_
  simp [Server.fileText?, Fingerprint.url, hpath, hfiles', ht]

/-- A document that is read is the one that an editor shows, if one shows it. -/
theorem reads_document? (hs : c.holds w s) (hw : Calm inUse scene w) :
    (Server.document? u).Meets c (fun r v s' => c.holds v s' ∧ Onward c w v ∧
      (r = none → s.documents.snapshot? u = none) ∧
      ∀ x, r = some x → x.fingerprint.url = u ∧
        (∀ y, s.documents.snapshot? u = some y → y.fingerprint = x.fingerprint) ∧
        ∃ look, Took x.fingerprint x.text look (scene v).history) w s := by
  refine hd.meets_document? hs (fun x hx => ?_) (fun v s' hnone hv hs' => ?_)
    fun v o v' p f path t hnone hv ho hf hpath hv' hp ht => ?_
  · refine ⟨hs, .inl rfl, by simp, ?_⟩
    rintro _ ⟨⟩
    obtain ⟨doc, -, heq⟩ := Option.map_eq_some_iff.mp hx
    refine ⟨heq ▸ rfl, fun y hy => ?_, _, hd.took_shown hs hx⟩
    rw [Option.some.inj (hy.symm.trans hx)]
  · exact ⟨hs', hv, fun _ => hnone, by simp⟩
  · refine ⟨hp, hd.onward_trans hv hv', by simp, ?_⟩
    rintro _ ⟨⟩
    obtain ⟨-, -, hcalm⟩ := hd.onward hw hv
    obtain ⟨hsuffix, -⟩ := hd.onward hcalm hv'
    refine ⟨?_, by simp [hnone], _, hd.took_onDisk ho hp hsuffix hf hpath ht⟩
    obtain ⟨size, modified, rfl⟩ := Server.stat_of_statOf? hf
    rfl

section Compile

variable {compile : String → String → Server.Job (Except Failure Analysis)}
  (hcompile : Compiles compile compiles)
include hcompile

theorem flight_meets {x : Flight} {t : String} (hs : c.holds w s)
    (hw : Calm inUse scene w) (hx : x ∈ (scene w).flights)
    (ht : ∃ look, Took x.fingerprint t look (scene w).history) :
    (flight Server.analysesLens x.fingerprint x.started x.id
      (compile t (Server.filename x.fingerprint.url))).MeetsFrom c true (fun _ => c.Rests) w s := by
  refine AnalysisStore.meets_flight Server.analysesLens_isLawful ?_
  refine (hcompile.keeps _ _).meetsFrom_of_gives hd.orderly hd.spares (hcompile.gives _ _) hs
    fun o v s ho hv hs => ?_
  obtain ⟨look, ht⟩ := ht
  obtain ⟨hhistory, hflights, hw⟩ := hd.onward hw hv
  have hsourced := (hd.sourced v s hs).landed (hflights.subset hx)
    (fun a ha => ⟨t, look, ho a ha, ht.of_suffix hhistory⟩) fun i a => hd.told hs hw
  obtain ⟨v', hv', -, -, hs'⟩ := hd.stored v s _ _ hw.2 hs List.suffix_rfl { hsourced with }
  exact ⟨v', hv', hs'⟩

/-- What a store gives for a text was found under its fingerprint. -/
theorem getOrCompute_meets {x : Snapshot} (hs : c.holds w s) (hw : Calm inUse scene w)
    (hx : ∃ look, Took x.fingerprint x.text look (scene w).history)
    {Q : Except Failure Analysis → ω → Server → Prop}
    (hQ : ∀ r v s, c.holds v s → Onward c w v →
      (∀ a, r = .ok a → Found compiles (scene w).history (scene v).history x.fingerprint a) →
        Q r v s) :
    (AnalysisStore.getOrCompute Server.analysesLens x.fingerprint
      (compile x.text (Server.filename x.fingerprint.url))).Meets c Q w s := by
  have hsourced := hd.sourced w s hs
  -- a flight that lands tells what was found for its text, whoever began it
  have hlands {v v' : ω} {s' : Server} {y : Flight} (hv : c.own w v) (hv₀ : inUse v)
      (hy : y ∈ (scene v).flights) (hyx : y.fingerprint = x.fingerprint)
      (hlasts : Outlasts y.id x.fingerprint.url (scene w).history) (hv' : c.others v v')
      (hs' : c.holds v' s') (o : Except Failure Analysis)
      (ho : s'.analyses.flights.outcome? y.id = some o) : Q o v' s' := by
    obtain ⟨-, hflights, hcalm⟩ := hd.later hv₀ hv'
    refine hQ o v' s' hs' (.inr (hd.orderly.others_of_own _ _ _ hv hv')) fun a ha =>
      ⟨?_, y.id, ?_, hlasts⟩
    · exact hyx ▸ (hd.sourced v' s' hs').outcomes y (hflights.subset hy) a (ha ▸ ho)
    · exact hd.told hs' hcalm (ha ▸ ho)
  refine AnalysisStore.meets_getOrCompute Server.analysesLens_isLawful hd.orderly
    (fun a ha => ?_) (fun id hid => ?_) fun _ => ?_
  · refine hQ _ w s hs (.inl rfl) fun b hb => ?_
    obtain rfl : a = b := Except.ok.inj hb
    obtain ⟨hstems, id, htold, hlasts⟩ := hsourced.get? ha
    exact ⟨hstems, id, htold.elim (hd.told hs hw) fun h => h, hlasts⟩
  · obtain ⟨⟨y, hy, rfl, hyx⟩, hwaits⟩ := hsourced.running _ (Table.mem_of_find? hid)
    have hlasts : Outlasts y.id x.fingerprint.url (scene w).history :=
      fun m hm _ => hsourced.lasting y.id hwaits m hm
    exact hd.parks hs fun v s hv hs =>
      hlands (hd.orderly.own_refl w) hw.2 hy hyx hlasts hv hs
  · let y : Flight := ⟨s.analyses.flights.next, x.fingerprint, s.analyses.epoch x.fingerprint.url⟩
    have hlasts : Outlasts y.id x.fingerprint.url (scene w).history :=
      fun m hm _ => hsourced.lasting y.id hsourced.outcome?_next m hm
    obtain ⟨v, hv, hv₀, hscene, hbegun⟩ := hd.stored w s (y :: (scene w).flights)
      (s.analyses.begun x.fingerprint) hw.2 hs (List.suffix_cons _ _)
      (hsourced.begun x.fingerprint)
    have hy : y ∈ (scene v).flights := by simp [hscene]
    refine ⟨v, hv, fun v' s hv' hs => ?_, hd.parks hbegun fun v' s' hv' hs' => ?_⟩
    · obtain ⟨look, ht⟩ := hx
      obtain ⟨hhistory, hflights, hcalm⟩ := hd.later hv₀ hv'
      rw [hscene] at hhistory
      exact hd.flight_meets (x := y) hcompile hs hcalm (hflights.subset hy)
        ⟨look, ht.of_suffix hhistory⟩
    · exact hlands hv hv₀ hy rfl hlasts hv' hs'

/-- A document is analyzed by what was found for it since it was read. -/
theorem meets_analyzeBy_of_reads {P : Snapshot → ω → Prop}
    {Q : Except Failure (Option Analysis) → ω → Server → Prop}
    (hread : (Server.document? u).Meets c (fun r v s' => c.holds v s' ∧ Calm inUse scene v ∧
      (r = none → Q (.ok none) v s') ∧ ∀ x, r = some x → x.fingerprint.url = u ∧
        (∃ look, Took x.fingerprint x.text look (scene v).history) ∧ P x v) w s)
    (hfails : ∀ x f v v' s', P x v → Onward c v v' → c.holds v' s' → Q (.error f) v' s')
    (hfound : ∀ x a v v' s', P x v → Onward c v v' → c.holds v' s' →
      Found compiles (scene v).history (scene v').history x.fingerprint a → Q (.ok (some a)) v' s') :
    (Server.analyzeBy compile u).Meets c Q w s := by
  rw [Server.analyzeBy, Task.meets_then]
  refine hread.mono fun r v o hr => ?_
  obtain ⟨ho, hcalm, hnone, hr⟩ := hr
  cases r with
  | none => exact hnone rfl
  | some x =>
    obtain ⟨rfl, ⟨look, ht⟩, hx⟩ := hr x rfl
    rw [Task.meets_then, Task.meets_read]
    cases hheld : o.analyses.get? x.fingerprint with
    | some a =>
      obtain ⟨hstems, id, htold, hlasts⟩ := (hd.sourced v o ho).get? hheld
      exact hfound x a v v o hx (.inl rfl) ho
        ⟨hstems, id, htold.elim (hd.told ho hcalm) fun h => h, hlasts⟩
    | none =>
      dsimp only
      rw [Task.meets_then]
      refine Server.keeps_ensureStarted.meetsFrom hd.orderly hd.spares ho fun started v' o' hv ho' => ?_
      obtain ⟨hhistory, -, hcalm⟩ := hd.onward hcalm hv
      cases started with
      | error failure => exact hfails x failure v v' o' hx hv ho'
      | ok _ =>
        dsimp only
        rw [Task.meets_then]
        refine hd.getOrCompute_meets hcompile ho' hcalm ⟨look, ht.of_suffix hhistory⟩
          fun r v'' s' hs' hv' hr => ?_
        have hv := hd.onward_trans hv hv'
        cases r with
        | error failure => exact hfails x failure v v'' s' hx hv hs'
        | ok a => exact hfound x a v v'' s' hx hv hs' ((hr a rfl).of_suffix hhistory)

/-- An analysis is found under the fingerprint of what is read. -/
theorem meets_analyzeBy (hs : c.holds w s) (hw : Calm inUse scene w) :
    (Server.analyzeBy compile u).Meets c (fun r v s' => c.holds v s' ∧ Onward c w v ∧
      (r = .ok none → s.documents.snapshot? u = none) ∧
      ∀ a, r = .ok (some a) → ∃ f, f.url = u ∧
        (∀ y, s.documents.snapshot? u = some y → y.fingerprint = f) ∧
        Found compiles (scene w).history (scene v).history f a) w s := by
  refine hd.meets_analyzeBy_of_reads hcompile (P := fun x v => Onward c w v ∧
    x.fingerprint.url = u ∧ ∀ y, s.documents.snapshot? u = some y → y.fingerprint = x.fingerprint)
    ((hd.reads_document? hs hw).mono fun r v s' hr => ?_) (fun x f v v' s' hx hv hs' => ?_)
    fun x a v v' s' hx hv hs' ha => ?_
  · obtain ⟨hs', hwv, hnone, hr⟩ := hr
    obtain ⟨-, -, hcalm⟩ := hd.onward hw hwv
    refine ⟨hs', hcalm, fun h => ⟨hs', hwv, fun _ => hnone h, by simp⟩, fun x hx => ?_⟩
    obtain ⟨hurl, hsame, htook⟩ := hr x hx
    exact ⟨hurl, htook, hwv, hurl, hsame⟩
  · exact ⟨hs', hd.onward_trans hx.1 hv, by simp, by simp⟩
  · obtain ⟨hwv, hurl, hsame⟩ := hx
    obtain ⟨hhistory, -⟩ := hd.onward hw hwv
    refine ⟨hs', hd.onward_trans hwv hv, by simp, fun b hb => ?_⟩
    cases hb
    exact ⟨x.fingerprint, hurl, hsame, ha.of_suffix hhistory⟩

end Compile
end Depicts
end LanguageServer.Office
