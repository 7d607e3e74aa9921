import LanguageServer.Proofs.Task.Contract
import LanguageServer.Server.Process

/-! A request to the analysis process comes to its end whatever the others do: it is answered, its
time passes, or the process is gone. -/
namespace LanguageServer

theorem Task.meets_awaitFor {ω σ α : Type} {c : Contract ω σ} {w : ω} {s : σ} {span : Duration}
    {ready : σ → Option (α × σ)} {Q : Option α → ω → σ → Prop}
    (h : c.Parks w s fun v s => (ready s = none → Q none v s) ∧
      ∀ a s', ready s = some (a, s') → Q (some a) v s') :
    (awaitFor span ready).Meets c Q w s := by
  intro start
  refine h.mono fun v s hv => ⟨fun hstuck => ?_, fun t b s' hready => ?_⟩
  · have hlimit := hstuck (start.after span)
    cases hr : ready s with
    | some r => simp [hr] at hlimit
    | none =>
      simp only [hr, Option.isNone_iff_eq_none] at hlimit
      split at hlimit
      · cases hlimit
      · next hle => exact absurd (Nat.le_refl _) hle
  · obtain ⟨a, rfl, hr⟩ | ⟨rfl, rfl, hr, -⟩ := given_or_late hready
    · exact hv.2 a s' hr
    · exact hv.1 hr

namespace Analyzer.Client

theorem needsRestart_of_target {c : Client} {f : Failure} (h : c.target = .error f) :
    f.needsRestart = true := by
  unfold target at h
  split at h
  · cases h
  · cases h
    split <;> rfl

theorem needsRestart_loss (c : Client) (id : ChannelId) : (c.loss id).needsRestart = true := by
  unfold loss
  split
  · rfl
  · split <;> rfl

theorem needsRestart_of_post {c d : Client} {id : ChannelId} {op : Operation} {params : Json}
    {f : Failure} (h : c.post id op params = (.error f, d)) : f.needsRestart = true := by
  unfold post at h
  simp only at h
  split at h
  · cases h
    exact needsRestart_loss _ _
  · split at h
    · cases h
      exact needsRestart_loss _ _
    · cases h

end Analyzer.Client

namespace Server

open Analyzer

/-- What a request comes to, told by what the process answers. -/
def Replies {α : Type} (op : Operation) (read : Json → Option α)
    (answered : Except Failure Json → Prop) : Except Failure α → Prop
  | .ok a => ∃ j, answered (.ok j) ∧ read j = some a
  | .error f => f.needsRestart = true ∨ answered (.error f) ∨ (∃ limit, f = .timedOut op.method limit) ∨
    ∃ j, answered (.ok j) ∧ read j = none

/-- Whatever is collected for a request that has just been written is one of the answers. -/
def Hears (o : Company Server) (op : Operation) (params : Json)
    (answered : Except Failure Json → Prop) : Prop :=
  ∀ (s : Server) id n client s' r ch, s.client.post id op params = (.ok n, client) →
    o.may { s with client } s' → (s'.client.channel id).collect n = some (r, ch) → answered r

variable {α : Type} {o : Company Server} {I : Server → Prop} {op : Operation} {params : Json}
  {answered : Except Failure Json → Prop} {w s : Server}

theorem meets_send (hothers : ∀ s s', I s → o.may s s' → I s')
    (hclient : ∀ s client, I s → I { s with client }) (hears : Hears o op params answered)
    (hs : I s) (id : ChannelId) (limit : Duration) {Q : Except Failure Json → Server → Server → Prop}
    (hQ : ∀ r w s, I s → Replies op some answered r → Q r w s) :
    (send id op params limit).Meets (.alone o) Q w s := by
  unfold send
  rw [Task.meets_then, Task.meets_update]
  rcases hpost : s.client.post id op params with ⟨r, client⟩
  have hlift : clientLens.lift (fun c => c.post id op params) s = (r, { s with client }) := by
    simp [clientLens, Lens.lift, hpost]
  rw [hlift]
  cases r with
  | error f => exact hQ _ _ _ (hclient s client hs) (.inl (Client.needsRestart_of_post hpost))
  | ok n =>
    rw [Task.meets_then]
    refine Task.meets_awaitFor (Contract.parks_alone.mpr fun s' hmay => ?_)
    have hs' := hothers _ _ (hclient s client hs) hmay
    refine ⟨fun _ => ?_, fun r t hready => ?_⟩
    · simp only [Task.meets_then, onClient, Task.meets_modify]
      exact hQ _ _ _ (hclient s' _ hs') (.inr (.inr (.inl ⟨limit, rfl⟩)))
    · simp only [Client.fromChannel, Option.map_map, Option.map_eq_some_iff] at hready
      obtain ⟨⟨r', ch⟩, hcollect, hr⟩ := hready
      obtain ⟨rfl, rfl⟩ := Prod.mk.inj hr
      have hheard := hears s id n client s' r' ch hpost hmay hcollect
      refine hQ _ _ _ (hclient s' _ hs') ?_
      cases r' with
      | ok j => exact ⟨j, hheard, rfl⟩
      | error f => exact .inr (.inl hheard)

/-- A request is answered by the process, or fails with the process or for lack of time. -/
theorem meets_request (hothers : ∀ s s', I s → o.may s s' → I s')
    (hclient : ∀ s client, I s → I { s with client }) (hears : Hears o op params answered)
    (hs : I s) (read : Json → Option α) {Q : Except Failure α → Server → Server → Prop}
    (hQ : ∀ r w s, I s → Replies op read answered r → Q r w s) :
    (request op params read).Meets (.alone o) Q w s := by
  unfold request
  rw [Task.meets_then, Task.meets_read]
  cases htarget : s.client.target with
  | error f => exact hQ _ _ _ hs (.inl (Client.needsRestart_of_target htarget))
  | ok id =>
    rw [Task.meets_then, Task.meets_read, Task.meets_then]
    refine meets_send hothers hclient hears hs id _ fun r w s hs hr => ?_
    cases r with
    | error f =>
      refine hQ _ _ _ hs ?_
      obtain hr | hr | hr | ⟨j, -, hj⟩ := hr
      · exact .inl hr
      · exact .inr (.inl hr)
      · exact .inr (.inr (.inl hr))
      · cases hj
    | ok j =>
      obtain ⟨i, hi, hij⟩ := hr
      cases hij
      cases hread : read j with
      | some a =>
        simp only [hread]
        exact hQ (.ok a) _ _ hs ⟨j, hi, hread⟩
      | none =>
        simp only [hread]
        exact hQ (.error _) _ _ hs (.inr (.inr (.inr ⟨j, hi, hread⟩)))

/-- No request is stuck for good: it ends whatever becomes of the server meanwhile. -/
theorem request_ends (op : Operation) (params : Json) (read : Json → Option α) (s : Server) :
    (request op params read).Runs ⟨fun _ _ => True, fun _ => False⟩ (fun _ _ => True) s :=
  have hears : Hears ⟨fun _ _ => True, fun _ => False⟩ op params fun _ => True :=
    fun _ _ _ _ _ _ _ _ _ _ => trivial
  Task.Meets.runs (w := s) <| meets_request (I := fun _ => True) (fun _ _ _ _ => trivial)
    (fun _ _ _ => trivial) hears trivial read fun _ _ _ _ _ => trivial

end Server
end LanguageServer
