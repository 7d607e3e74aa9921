import LanguageServer.Proofs.Import.CycleSearch
import LanguageServer.Proofs.Server.Reading

/-! The check for import cycles comes to its end and to the right verdict, whatever else goes on in
the server meanwhile. -/
namespace LanguageServer
open Relation

namespace ImportFacts

variable {F : ImportFacts} {o : Company Server} {Inv : Server → Prop} {w s : Server}

/-- The others keep the facts true and let flights land; a walk may wait for a flight in the air. -/
def company (F : ImportFacts) : Company Server where
  may s s' := (F.Holds s → F.Holds s') ∧ F.Lands s s'
  stalls := Flying

theorem respects_company (F : ImportFacts) : F.Respects F.company F.Holds where
  holds _ hs := hs
  others _ _ hs hmay := hmay.1 hs
  landed _ _ _ hmay := hmay.2
  stalls _ hs := hs
  graph _ _ hs hg := ⟨hs.opened, hs.onDisk, hg⟩

/-- What the check comes to: a right verdict; or the process failed, or there is no telling what the
first file imports. -/
def Settles (F : ImportFacts) (root : Url) (source : String) :
    Except Failure (CycleVerdict × ReadSet) → Prop
  | .ok (v, _) => v.IsRight (F.deps root source) root
  | .error f => f.needsRestart = true ∨ F.extracted root source = .error f

/-- For finitely many files below a root the check ends, and its verdict is right. -/
theorem walkCycle_settles (F : ImportFacts) (root : Url) (source : String) (s : Server)
    (hs : F.Holds s) (hsource : source ∈ F.texts)
    (hfinite : {u | ReflTransGen (Edge (F.deps root source)) root u}.Finite) :
    (Server.walkCycle root source).Runs F.company (fun r _ => F.Settles root source r) s := by
  have hF := F.respects_company
  refine Task.Meets.runs (w := s) ?_
  simp only [Server.walkCycle, Server.record, Task.meets_then, Task.meets_read]
  refine hF.importsOf hs root hsource fun r w s hs hr => ?_
  cases r with
  | error f => exact hr.error
  | ok set =>
    have hdeps := deps_of_ok (F.textFrom_root root source) hr.ok
    refine Task.Meets.repeatFrom
      (fun b _ s => F.Holds s ∧ CycleWalk.Searching (F.deps root source) root none b.1)
      (fun b => (b.1.unseen (F.deps root source) root).ncard)
      ⟨hs, hdeps ▸ CycleWalk.searching_start root _⟩ ?_
    rintro ⟨walk, reads⟩ w s ⟨hs, hwalk⟩
    rw [Contract.parks_alone]
    intro s₁ hmay
    have hs₁ := hmay.1 hs
    have hnext := CycleWalk.isRight_next hwalk
    cases hev : walk.next with
    | verdict v =>
      rw [hev] at hnext
      exact hnext
    | visit file next =>
      rw [hev] at hnext
      obtain ⟨hsearch, hreached, hnew, hsame⟩ := hnext
      have hne : file ≠ root := fun he => hnew (he ▸ hsearch.begun)
      have hfrom := textFrom_of_ne (F := F) source hne
      have hrank (imports) : ((next.enter file imports).unseen (F.deps root source) root).ncard <
          (walk.unseen (F.deps root source) root).ncard := by
        have hlt := CycleWalk.ncard_unseen_enter hfinite hreached hnew imports
        simpa [CycleWalk.unseen, hsame] using hlt
      simp only [Task.meets_then, Task.meets_read]
      refine hF.document? hs₁ file fun r w s hs hr _ => ?_
      cases r with
      | none =>
        have hnone := deps_of_none (hfrom.trans hr.symm)
        exact ⟨⟨hs, hsearch.enter_none hnew hnone⟩, fun _ => hrank none⟩
      | some snap =>
        have htext := hfrom.trans hr.symm
        rw [Task.meets_then]
        refine hF.importsOnTheWay hs file (textFrom_mem hsource htext) fun r w s hs hr => ?_
        cases r with
        | ok set =>
          have hset := deps_of_ok htext hr.ok
          exact ⟨⟨hs, hset ▸ hsearch.enter_some hnew hreached⟩, fun _ => hrank _⟩
        | error f =>
          cases hf : f.needsRestart with
          | true =>
            simp only [hf, if_true, Task.meets_pure]
            exact .inl hf
          | false =>
            have herror := hr.error.resolve_left (by simp [hf])
            have hentered := deps_of_error htext herror ▸ hsearch.enter_some hnew hreached
            simp only [hf, Bool.false_eq_true, if_false, Task.meets_pure]
            exact ⟨⟨hs, hentered⟩, fun _ => hrank _⟩

/-- The file at the root of the file system, and an import of it. -/
def rootFile : Url := ⟨"file", some "", "/a", none, none⟩

def rootEdge : ImportEdge := ⟨.includeFile, "a", some ⟨"/a"⟩, none⟩

/-- A file that imports itself and is known by its text alone. -/
def selfImport : ImportFacts where
  opened _ := none
  onDisk _ := none
  extracted _ t := .ok ⟨Hash.ofText t, [rootEdge]⟩
  texts := {""}
  opened_mem := by simp
  onDisk_mem := by simp
  hash_inj := Set.injOn_singleton _ _
  extracted_hash := by simp

/-- A server that has just come up, with no files around it. -/
def bareServer : Server := .new ⟨.empty, [], .scripted none, [], 0, none⟩ {}

theorem text?_empty (p : Path) : FileTree.empty.text? p = none := by
  unfold FileTree.text? FileTree.find?
  cases FileTree.empty.locate? p with
  | none => rfl
  | some place =>
    simp only [Option.bind_some, FileTree.entry?]
    split <;> simp_all [FileTree.empty]

theorem holds_bareServer : selfImport.Holds bareServer where
  opened _ := rfl
  onDisk u := by
    cases h : u.toFilePath? with
    | none => rfl
    | some path => exact text?_empty path
  imports u e he := by simp [bareServer, Server.new, ImportGraph.empty, Timed.Cache.empty] at he

theorem selfImport_may : selfImport.company.may bareServer bareServer :=
  ⟨id, fun key id h => by simp [bareServer, Server.new, ImportGraph.empty, FlightTable.empty] at h⟩

theorem finite_selfImport :
    {u | ReflTransGen (Edge (selfImport.deps rootFile "")) rootFile u}.Finite := by
  refine (Set.finite_singleton rootFile).subset fun u hu => ?_
  induction hu with
  | refl => rfl
  | tail _ hedge ih =>
    cases ih
    have hurls : rootEdge.url? = some rootFile := by rfl
    simpa [Edge, deps, textFrom, selfImport, ImportSet.urls, hurls] using hedge

theorem walkCycle_settles_selfImport : selfImport.company.may bareServer bareServer ∧
    (Server.walkCycle rootFile "").Runs selfImport.company
      (fun r _ => selfImport.Settles rootFile "" r) bareServer :=
  ⟨selfImport_may,
    walkCycle_settles selfImport rootFile "" bareServer holds_bareServer rfl finite_selfImport⟩

end ImportFacts
end LanguageServer
