import LanguageServer.Proofs.Import.WaterfallSearch
import LanguageServer.Proofs.Server.CycleCheck
import LanguageServer.Proofs.Server.Requests

/-! The walk for the symbols that a document sees comes to its end, with the right symbols unless the
process fails, whatever else goes on in the server meanwhile. -/
namespace LanguageServer
open Relation

/-- What else is known while a walk goes on: the fingerprints that documents may have, what may be
held under a fingerprint, and what the process may answer when it is to parse a text of a file. -/
structure SymbolFacts where
  told : Url → Fingerprint → Prop
  held : Fingerprint → Option Analysis → Prop
  answered : String → String → Except Failure Json → Prop

namespace SymbolFacts

/-- The symbols in an answer of the parser. -/
def parsed (j : Json) : Option (List Symbol) :=
  (Analyzer.listUnder? "symbols" Symbol.ofJson? j).map Symbol.normalizeAll

variable (S : SymbolFacts) (F : ImportFacts)

/-- What parsing a text of a file comes to. -/
def Parses (u : Url) (t : String) (r : Except Failure (List Symbol)) : Prop :=
  Server.Replies .parse parsed (S.answered t (Server.filename u)) r

/-- What a file may have at its top: the symbols of the analysis that is held for it; if there is
none, what the parser makes of its text, and nothing if the parser fails at it. -/
def Gives (u : Url) : Option (List Symbol) → Prop
  | none => F.text? u = none
  | some symbols => ∃ t f held, F.text? u = some t ∧ S.told u f ∧ S.held f held ∧
    match held with
    | some a => symbols = a.symbols
    | none => S.Parses u t (.ok symbols) ∨
      symbols = [] ∧ ∃ failure, failure.needsRestart = false ∧ S.Parses u t (.error failure)

structure Holds (s : Server) : Prop where
  imports : F.Holds s
  told : ∀ u f, ImportFacts.Showing u f s → S.told u f
  held : ∀ f, S.held f (s.analyses.get? f)

/-- The others keep the facts true, let flights land and answer what the parser was just asked. -/
structure Allows (s s' : Server) : Prop where
  holds : S.Holds F s → S.Holds F s'
  lands : F.Lands s s'
  answers : ∀ (s₀ : Server) u t id n client r ch, s = { s₀ with client } →
    s₀.client.post id .parse (Analyzer.sourceParams t (Server.filename u)) = (.ok n, client) →
    (s'.client.channel id).collect n = some (r, ch) → S.answered t (Server.filename u) r

def company : Company Server := ⟨S.Allows F, ImportFacts.Flying⟩

/-- What the walk comes to: the right symbols; or the process failed, or there is no telling what
the first file imports. -/
def Settles (root : Url) (source : String) (limit : Nat) :
    Except Failure (List WaterfallSymbol × ReadSet) → Prop
  | .ok (found, _) => ∃ tops, IsWaterfall (F.deps root source) (S.Gives F) tops root limit found
  | .error f => f.needsRestart = true ∨ F.extracted root source = .error f

variable {S F} {w s : Server}

theorem respects_company (S : SymbolFacts) (F : ImportFacts) :
    F.Respects (S.company F) (S.Holds F) where
  holds _ hs := hs.imports
  others _ _ hs hmay := hmay.holds hs
  landed _ _ _ hmay := hmay.lands
  stalls _ hs := hs
  graph _ _ hs hg := ⟨⟨hs.imports.opened, hs.imports.onDisk, hg⟩, hs.told, hs.held⟩

/-- The symbols at the top of a document that was read. -/
theorem meets_topSymbols (hs : S.Holds F s) {u : Url} {snap : Snapshot} (hurl : snap.url = u)
    (htext : F.text? u = some snap.text) (htold : S.told u snap.fingerprint)
    {Q : Except Failure (List Symbol) → Server → Server → Prop}
    (hok : ∀ symbols w s, S.Holds F s → S.Gives F u (some symbols) → Q (.ok symbols) w s)
    (herror : ∀ f w s, f.needsRestart = true → Q (.error f) w s) :
    (Server.topSymbols snap).Meets (.alone (S.company F)) Q w s := by
  unfold Server.topSymbols
  rw [Task.meets_then, Task.meets_read]
  have hheld := hs.held snap.fingerprint
  cases hget : s.analyses.get? snap.fingerprint with
  | some a => exact hok _ _ _ hs ⟨_, _, some a, htext, htold, hget ▸ hheld, rfl⟩
  | none =>
    rw [Task.meets_then]
    have hears : Server.Hears (S.company F) .parse
        (Analyzer.sourceParams snap.text (Server.filename snap.url))
        (S.answered snap.text (Server.filename snap.url)) :=
      fun s id n client s' r ch hpost hmay hr =>
        hmay.answers s snap.url snap.text id n client r ch rfl hpost hr
    refine Server.meets_request (I := S.Holds F) (o := S.company F) (fun _ _ hs hmay => hmay.holds hs)
      (fun _ _ hs => ⟨⟨hs.imports.opened, hs.imports.onDisk, hs.imports.imports⟩, hs.told, hs.held⟩)
      hears hs _ fun r w s hs hr => ?_
    have hgives (symbols) (h : S.Parses u snap.text (.ok symbols) ∨ symbols = [] ∧
        ∃ failure, failure.needsRestart = false ∧ S.Parses u snap.text (.error failure)) :
        S.Gives F u (some symbols) := ⟨_, _, none, htext, htold, hget ▸ hheld, h⟩
    cases r with
    | ok symbols => exact hok _ _ _ hs (hgives symbols (.inl (hurl ▸ hr)))
    | error f =>
      -- a text that cannot be parsed has no symbols; a process that failed ends the walk
      cases hf : f.needsRestart with
      | true =>
        simp only [hf, if_true, Task.meets_pure]
        exact herror f _ _ hf
      | false =>
        simp only [hf, Bool.false_eq_true, if_false, Task.meets_pure]
        exact hok _ _ _ hs (hgives [] (.inr ⟨rfl, f, hf, hurl ▸ hr⟩))

/-- What holds of a walk between two rounds. -/
structure Walking (S : SymbolFacts) (F : ImportFacts) (root : Url) (source : String) (limit : Nat)
    (walk : WaterfallWalk) : Prop where
  spreading : WaterfallWalk.Spreading (F.deps root source) root limit none walk
  gathered : ∃ tops,
    WaterfallWalk.Gathered (F.deps root source) (S.Gives F) tops root limit none walk
  texts : ∀ x ∈ walk.queue, F.textFrom root source x.file = some x.text

variable {root : Url} {source : String} {limit : Nat} {walk : WaterfallWalk}

theorem walking_start (S : SymbolFacts) (F : ImportFacts) (root : Url) (source : String)
    (limit : Nat) : Walking S F root source limit (WaterfallWalk.start root source limit) where
  spreading := WaterfallWalk.spreading_start _ _ _ _
  gathered := ⟨fun _ => none, WaterfallWalk.gathered_start _ _ _ _ _ _⟩
  texts := by simp [WaterfallWalk.start, ImportFacts.textFrom]

theorem Walking.finish (h : Walking S F root source limit walk) {found : List WaterfallSymbol}
    (hev : walk.next = .finished found) :
    ∃ tops, IsWaterfall (F.deps root source) (S.Gives F) tops root limit found := by
  obtain ⟨tops, hgathered⟩ := h.gathered
  have hnext := WaterfallWalk.isRight_next h.spreading hgathered
  rw [hev] at hnext
  exact ⟨tops, hnext⟩

section Expand

variable {x : WaterfallWalk.Source} {next : WaterfallWalk} (hev : walk.next = .expand x next)
  (h : Walking S F root source limit walk)
include hev h

theorem Walking.textFrom : F.textFrom root source x.file = some x.text := by
  obtain ⟨tops, hgathered⟩ := h.gathered
  have hnext := WaterfallWalk.isRight_next h.spreading hgathered
  rw [hev] at hnext
  exact h.texts x (hnext.2.2.2.subset List.mem_cons_self)

/-- The walk goes on with the imports of a file of the queue. -/
theorem Walking.follow {set : ImportSet} (hset : F.extracted x.file x.text = .ok set) :
    Walking S F root source limit (next.follow x set.edges) ∧
      (next.follow x set.edges).rank (F.deps root source) root <
        walk.rank (F.deps root source) root := by
  obtain ⟨tops, hgathered⟩ := h.gathered
  have hnext := WaterfallWalk.isRight_next h.spreading hgathered
  rw [hev] at hnext
  obtain ⟨hexpanding, hkept, hvisited, hqueue⟩ := hnext
  have hdeps := ImportFacts.deps_of_ok (h.textFrom hev) hset
  refine ⟨⟨hexpanding.follow fun v => hdeps ▸ WaterfallWalk.mem_urls set,
    ⟨tops, hkept.of_eq rfl rfl rfl hexpanding.next⟩, fun y hy => ?_⟩, ?_⟩
  · exact h.texts y (hqueue.subset (List.mem_cons_of_mem _ hy))
  · exact WaterfallWalk.rank_lt_of_expand hvisited (Nat.lt_of_succ_le hqueue.length_le)

/-- A file whose imports cannot be extracted is left at once. -/
theorem Walking.leave {f : Failure} (hf : F.extracted x.file x.text = .error f) :
    Walking S F root source limit next ∧
      next.rank (F.deps root source) root < walk.rank (F.deps root source) root := by
  obtain ⟨tops, hgathered⟩ := h.gathered
  have hnext := WaterfallWalk.isRight_next h.spreading hgathered
  rw [hev] at hnext
  obtain ⟨hexpanding, hkept, hvisited, hqueue⟩ := hnext
  refine ⟨⟨hexpanding.leave (ImportFacts.deps_of_error (h.textFrom hev) hf), ⟨tops, hkept⟩,
    fun y hy => ?_⟩, ?_⟩
  · exact h.texts y (hqueue.subset (List.mem_cons_of_mem _ hy))
  · exact WaterfallWalk.rank_lt_of_expand hvisited (Nat.lt_of_succ_le hqueue.length_le)

end Expand

section Visit

variable {file : Url} {via : ImportKind} {next : WaterfallWalk}
  (hev : walk.next = .visit file via next) (h : Walking S F root source limit walk)
include hev h

/-- Whatever a new file is found to give, it is what the walk has found so far. -/
theorem Walking.learn (given : Option (List Symbol)) :
    WaterfallWalk.Spreading (F.deps root source) root limit (some file) next ∧
      ∃ tops, tops file = given ∧
        WaterfallWalk.Gathered (F.deps root source) (S.Gives F) tops root limit (some file) next := by
  obtain ⟨tops, hgathered⟩ := h.gathered
  have hnext := WaterfallWalk.isRight_next h.spreading hgathered
  rw [hev] at hnext
  obtain ⟨hopen, -, -, -, hnew, -⟩ := hnext
  have hupdate : WaterfallWalk.Gathered (F.deps root source) (S.Gives F)
      (Function.update tops file given) root limit none walk :=
    hgathered.congr_tops fun u hu =>
      Function.update_of_ne (fun he : u = file => hnew (he ▸ hu)) _ _
  have hagain := WaterfallWalk.isRight_next h.spreading hupdate
  rw [hev] at hagain
  exact ⟨hopen, _, Function.update_self _ _ _, hagain.2.1⟩

/-- A new file is one step further than the files at hand, and not the root. -/
theorem Walking.place : IsDistance (F.deps root source) root (next.depth + 1) file ∧
    next.depth < limit ∧ file ≠ root ∧ file ∉ walk.visited ∧ next.visited = file :: walk.visited ∧
    next.queue <:+ walk.queue := by
  obtain ⟨tops, hgathered⟩ := h.gathered
  have hnext := WaterfallWalk.isRight_next h.spreading hgathered
  rw [hev] at hnext
  obtain ⟨-, -, hdist, hdepth, hnew, hvisited, hqueue⟩ := hnext
  exact ⟨hdist, hdepth, fun he => hnew (he ▸ h.spreading.begun), hnew, hvisited, hqueue⟩

theorem Walking.miss (hfinite : {u | ReflTransGen (Edge (F.deps root source)) root u}.Finite)
    (htext : F.text? file = none) :
    Walking S F root source limit next ∧
      next.rank (F.deps root source) root < walk.rank (F.deps root source) root := by
  obtain ⟨hdist, -, hne, hnew, hvisited, hqueue⟩ := h.place hev
  obtain ⟨hopen, tops, htops, hgathered⟩ := h.learn hev none
  have hfrom := ImportFacts.textFrom_of_ne (F := F) source hne
  refine ⟨⟨hopen.miss (ImportFacts.deps_of_none (hfrom.trans htext)),
    ⟨tops, hgathered.miss htops htext⟩, fun y hy => h.texts y (hqueue.subset hy)⟩, ?_⟩
  exact WaterfallWalk.rank_lt_of_visit hfinite hdist.1.reflTransGen hnew hvisited
    (hqueue.length_le.trans (Nat.le_succ _))

theorem Walking.enter (hfinite : {u | ReflTransGen (Edge (F.deps root source)) root u}.Finite)
    {text : String} {symbols : List Symbol} (htext : F.text? file = some text)
    (hgives : S.Gives F file (some symbols)) :
    Walking S F root source limit (next.enter file via text symbols) ∧
      (next.enter file via text symbols).rank (F.deps root source) root <
        walk.rank (F.deps root source) root := by
  obtain ⟨hdist, hdepth, hne, hnew, hvisited, hqueue⟩ := h.place hev
  obtain ⟨hopen, tops, htops, hgathered⟩ := h.learn hev (some symbols)
  have hmem : file ∈ next.visited := hvisited ▸ List.mem_cons_self
  refine ⟨⟨hopen.enter hdist hmem hdepth via text symbols,
    ⟨tops, hgathered.enter hdist hmem hdepth htops hgives via text⟩, fun y hy => ?_⟩, ?_⟩
  · rw [WaterfallWalk.queue_enter] at hy
    cases List.mem_append.mp hy with
    | inl hy => exact h.texts y (hqueue.subset hy)
    | inr hy =>
      cases List.mem_singleton.mp hy
      exact (ImportFacts.textFrom_of_ne source hne).trans htext
  · refine WaterfallWalk.rank_lt_of_visit hfinite hdist.1.reflTransGen hnew ?_ ?_
    · exact (WaterfallWalk.visited_enter _ _ _ _ _).trans hvisited
    · rw [WaterfallWalk.queue_enter, List.length_append]
      exact Nat.add_le_add_right hqueue.length_le 1

end Visit

/-- For finitely many files below a root the walk ends, with the symbols seen from the root. -/
theorem walkWaterfall_settles (S : SymbolFacts) (F : ImportFacts) (root : Url) (source : String)
    (limit : Nat) (s : Server) (hs : S.Holds F s) (hsource : source ∈ F.texts)
    (hfinite : {u | ReflTransGen (Edge (F.deps root source)) root u}.Finite) :
    (Server.walkWaterfall root source limit).Runs (S.company F)
      (fun r _ => S.Settles F root source limit r) s := by
  have hF := S.respects_company F
  refine Task.Meets.runs (w := s) ?_
  simp only [Server.walkWaterfall, Server.record, Task.meets_then, Task.meets_read]
  refine Task.Meets.repeatFrom
    (fun b _ s => S.Holds F s ∧ Walking S F root source limit b.1)
    (fun b => b.1.rank (F.deps root source) root) ⟨hs, walking_start S F root source limit⟩ ?_
  rintro ⟨walk, reads⟩ w s ⟨hs, hwalk⟩
  rw [Contract.parks_alone]
  intro s₁ hmay
  have hs₁ := hmay.holds hs
  cases hev : walk.next with
  | finished found => exact hwalk.finish hev
  | expand x next =>
    have htext := hwalk.textFrom hev
    refine hF.importsFrom hs₁ root x.file (ImportFacts.textFrom_mem hsource htext)
      fun r w s hs hr => ?_
    cases r with
    | ok set =>
      obtain ⟨hfollow, hrank⟩ := hwalk.follow hev hr.ok
      exact ⟨⟨hs, hfollow⟩, fun _ => hrank⟩
    | error f =>
      by_cases hends : x.file = root ∨ f.needsRestart = true
      · simp only [hends, if_true, Task.meets_pure]
        obtain hroot | hf := hends
        · rw [hroot, ImportFacts.textFrom_root] at htext
          rw [hroot, ← Option.some.inj htext] at hr
          exact hr.error
        · exact .inl hf
      · simp only [hends, if_false, Task.meets_pure]
        obtain ⟨hleave, hrank⟩ := hwalk.leave hev (hr.error.resolve_left fun hf => hends (.inr hf))
        exact ⟨⟨hs, hleave⟩, fun _ => hrank⟩
  | visit file via next =>
    simp only [Task.meets_then, Task.meets_read]
    refine hF.document? hs₁ file fun r w s hs hr hshown => ?_
    cases r with
    | none =>
      obtain ⟨hmiss, hrank⟩ := hwalk.miss hev hfinite hr.symm
      exact ⟨⟨hs, hmiss⟩, fun _ => hrank⟩
    | some snap =>
      obtain ⟨hurl, s₀, hs₀, hshowing⟩ := hshown snap rfl
      rw [Task.meets_then]
      refine meets_topSymbols hs hurl hr.symm (hs₀.told _ _ hshowing)
        (fun symbols w s hs hgives => ?_) fun f w s hf => .inl hf
      obtain ⟨henter, hrank⟩ := hwalk.enter hev hfinite hr.symm hgives
      exact ⟨⟨hs, henter⟩, fun _ => hrank⟩

/-- No analysis is held, and the parser may answer anything. -/
def unanalysed : SymbolFacts := ⟨fun _ _ => True, fun _ held => held = none, fun _ _ _ => True⟩

theorem holds_unanalysed : unanalysed.Holds ImportFacts.selfImport ImportFacts.bareServer where
  imports := ImportFacts.holds_bareServer
  told _ _ _ := trivial
  held _ := rfl

theorem walkWaterfall_settles_selfImport :
    (unanalysed.company ImportFacts.selfImport).may ImportFacts.bareServer ImportFacts.bareServer ∧
    (Server.walkWaterfall ImportFacts.rootFile "" 3).Runs (unanalysed.company ImportFacts.selfImport)
      (fun r _ => unanalysed.Settles ImportFacts.selfImport ImportFacts.rootFile "" 3 r)
      ImportFacts.bareServer :=
  ⟨⟨id, ImportFacts.selfImport_may.2, fun _ _ _ _ _ _ _ _ _ _ _ => trivial⟩,
    walkWaterfall_settles unanalysed ImportFacts.selfImport ImportFacts.rootFile "" 3
      ImportFacts.bareServer holds_unanalysed rfl ImportFacts.finite_selfImport⟩

end SymbolFacts
end LanguageServer
