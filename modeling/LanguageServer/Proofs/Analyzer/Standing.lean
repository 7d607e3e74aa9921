import LanguageServer.Proofs.Flight.Sharing
import LanguageServer.Proofs.Task.Guests
import LanguageServer.Server.Documents

/-! What decides whether the analysis process is up, and what leaves it alone: asking the process,
hearing its answers, waiting for its end, and looking for documents and analyses. -/
namespace LanguageServer

namespace Analyzer.Client

/-- Nothing that decides whether the process is up is different. -/
structure SameStanding (c d : Client) : Prop where
  phase : d.phase = c.phase
  active : d.active = c.active
  current : d.current = c.current
  reader : d.reader = c.reader
  isChanging : d.isChanging = c.isChanging
  isClosing : ∀ id, (d.channel id).isClosing = (c.channel id).isClosing
  isDead : ∀ id, (d.channel id).isDead = (c.channel id).isDead

variable {c d : Client} {id j : ChannelId}

theorem channel_insert (c : Client) (id j : ChannelId) (ch : Channel) :
    ({ c with channels := c.channels.insert id ch }).channel j = if id == j then ch else c.channel j := by
  simp only [channel, Table.find?_insert]
  split <;> rfl

theorem channel_updateChannel (c : Client) (id j : ChannelId) (f : Channel → Channel) :
    (c.updateChannel id f).channel j = if id == j then f (c.channel id) else c.channel j :=
  channel_insert c id j _

theorem SameStanding.refl (c : Client) : c.SameStanding c :=
  ⟨rfl, rfl, rfl, rfl, rfl, fun _ => rfl, fun _ => rfl⟩

theorem SameStanding.trans {e : Client} (h : c.SameStanding d) (h' : d.SameStanding e) :
    c.SameStanding e where
  phase := h'.phase.trans h.phase
  active := h'.active.trans h.active
  current := h'.current.trans h.current
  reader := h'.reader.trans h.reader
  isChanging := h'.isChanging.trans h.isChanging
  isClosing id := (h'.isClosing id).trans (h.isClosing id)
  isDead id := (h'.isDead id).trans (h.isDead id)

/-- A channel is put in the place of one that was closed and refused just as it. -/
theorem sameStanding_insert {ch : Channel} (hclosing : ch.isClosing = (c.channel id).isClosing)
    (hdead : ch.isDead = (c.channel id).isDead) :
    c.SameStanding { c with channels := c.channels.insert id ch } := by
  refine ⟨rfl, rfl, rfl, rfl, rfl, fun j => ?_, fun j => ?_⟩
  · rw [channel_insert]
    split
    · next hj => exact eq_of_beq hj ▸ hclosing
    · rfl
  · rw [channel_insert]
    split
    · next hj => exact eq_of_beq hj ▸ hdead
    · rfl

theorem sameStanding_post (c : Client) (id : ChannelId) (op : Operation) (params : Json) :
    c.SameStanding (c.post id op params).2 := by
  have hcounted : c.SameStanding { c with nextRequest := c.nextRequest + 1 } :=
    ⟨rfl, rfl, rfl, rfl, rfl, fun _ => rfl, fun _ => rfl⟩
  simp only [post]
  split
  · exact hcounted
  · split
    · exact hcounted
    · exact hcounted.trans (sameStanding_insert rfl rfl)

theorem sameStanding_fromChannel {α : Type} {f : Channel → Option (α × Channel)} {a : α}
    (hf : ∀ ch a ch', f ch = some (a, ch') → ch'.isClosing = ch.isClosing ∧ ch'.isDead = ch.isDead)
    (h : c.fromChannel id f = some (a, d)) : c.SameStanding d := by
  obtain ⟨⟨b, ch⟩, hch, heq⟩ := Option.map_eq_some_iff.mp h
  cases heq
  obtain ⟨hclosing, hdead⟩ := hf _ _ _ hch
  exact sameStanding_insert hclosing hdead

theorem freshId_le_iff {n : Nat} : c.freshId ≤ n ↔ ∀ id ∈ c.channels.keys, id < n := by
  have go (ids : List Nat) :
      ids.foldr (fun id n => max (id + 1) n) 0 ≤ n ↔ ∀ id ∈ ids, id < n := by
    induction ids with
    | nil => simp
    | cons id ids ih => rw [List.foldr_cons, Nat.max_le, ih, List.forall_mem_cons, Nat.succ_le_iff]
  exact go c.channels.keys

theorem lt_freshId (h : id ∈ c.channels.keys) : id < c.freshId := freshId_le_iff.mp (Nat.le_refl _) id h

theorem freshId_le_insert (c : Client) (id : ChannelId) (ch : Channel) (n : RequestId) :
    c.freshId ≤ ({ c with channels := c.channels.insert id ch, nextRequest := n } : Client).freshId :=
  freshId_le_iff.mpr fun _ hj => lt_freshId (Table.mem_keys_insert.mpr (.inr hj))

end Analyzer.Client

namespace Analyzer.Channel

/-- Nothing is different that requests are about, and no line was read. -/
structure Calm (ch ch' : Channel) : Prop where
  pending : ch'.pending = ch.pending
  outcomes : ch'.outcomes = ch.outcomes
  isClosing : ch'.isClosing = ch.isClosing
  isDead : ch'.isDead = ch.isDead
  output : ch'.link.output = ch.link.output

theorem Calm.refl (ch : Channel) : ch.Calm ch := ⟨rfl, rfl, rfl, rfl, rfl⟩

/-- Closed and refused just as before. -/
def SameFlags (ch ch' : Channel) : Prop := ch'.isClosing = ch.isClosing ∧ ch'.isDead = ch.isDead

theorem flags_accept (ch : Channel) (line : String) : ch.SameFlags (ch.accept line) := by
  unfold accept
  split
  · split
    · unfold settle
      split <;> exact ⟨rfl, rfl⟩
    · exact ⟨rfl, rfl⟩
  · exact ⟨rfl, rfl⟩

theorem flags_collect {ch ch' : Channel} {n : RequestId} {o : Except Failure Json}
    (h : ch.collect n = some (o, ch')) : ch.SameFlags ch' := by
  obtain ⟨_, -, heq⟩ := Option.map_eq_some_iff.mp h
  cases heq
  exact ⟨rfl, rfl⟩

end Analyzer.Channel

namespace Server

open Analyzer

/-- The process is up, or is not, as it was. -/
def Steady (s s' : Server) : Prop := s.client.SameStanding s'.client

theorem Steady.refl (s : Server) : Steady s s := Client.SameStanding.refl _

/-- The reading of lines until the output ends. -/
def hearing (id : ChannelId) : Job Unit :=
  Task.repeatFrom () fun _ => do
    match ← Task.await fun s => (s.client.fromChannel id fun c =>
        c.link.listen.map fun (heard, link) => (heard, { c with link })).map fun (heard, client) =>
          (heard, { s with client }) with
    | .line text =>
      onClient (Client.updateChannel id (·.accept text))
      return (.inl () : Unit ⊕ Unit)
    | .ended => return .inr ()

theorem listen_eq (id : ChannelId) : listen id = (do
    hearing id
    if ← Task.read fun s => (s.client.channel id).isClosing then
      onClient (Client.updateChannel id (·.failAll .terminated))
    else
      let code ← reap id
      onClient (·.disconnect id code)) := rfl

/-- Whoever makes such changes may put a channel in the place of one that `P` says is like it. -/
structure Allows (P : Channel → Channel → Prop) (id : ChannelId) (G : Server → Server → Prop) : Prop where
  refl : ∀ s, G s s
  amend : ∀ s ch, P (s.client.channel id) ch →
    G s { s with client := { s.client with channels := s.client.channels.insert id ch } }

section Amending

variable {P Q : Channel → Channel → Prop} {G : Server → Server → Prop} {id : ChannelId}

theorem Allows.mono (hG : Allows P id G) (h : ∀ ch ch', Q ch ch' → P ch ch') : Allows Q id G :=
  ⟨hG.refl, fun s ch hch => hG.amend s ch (h _ _ hch)⟩

theorem Allows.update (hG : Allows P id G) {f : Channel → Channel} (hf : ∀ ch, P ch (f ch)) (s : Server) :
    G s (clientLens.modify (Client.updateChannel id f) s) := hG.amend s _ (hf _)

theorem Allows.fromChannel (hG : Allows P id G) {α : Type} {f : Channel → Option (α × Channel)} {s : Server}
    {a : α} {c : Client} (hf : ∀ ch a ch', f ch = some (a, ch') → P ch ch')
    (h : s.client.fromChannel id f = some (a, c)) : G s { s with client := c } := by
  obtain ⟨⟨b, ch⟩, hch, heq⟩ := Option.map_eq_some_iff.mp h
  cases heq
  exact hG.amend s ch (hf _ _ _ hch)

end Amending

section Ending

variable {G : Server → Server → Prop} {id : ChannelId} (hG : Allows Channel.Calm id G)
include hG

theorem behaves_reaping {α : Type} {body : Job α} (h : body.Behaves G) : (reaping id body).Behaves G := by
  refine .exclusive hG.refl (fun b s => hG.update (fun ch => ?_) s) h
  exact ⟨rfl, rfl, rfl, rfl, rfl⟩

theorem behaves_kill : (kill id).Behaves G := by
  refine behaves_reaping hG (.modify (hG.update fun ch => ⟨rfl, rfl, rfl, rfl, ?_⟩))
  dsimp only
  split <;> rfl

theorem behaves_reap : (reap id).Behaves G := by
  refine behaves_reaping hG (.bind (.read hG.refl _) fun hasChild => ?_)
  split
  · refine .bind (.awaitFor hG.refl fun s a s' ha => ?_) fun code => ?_
    · obtain ⟨_, -, heq⟩ := Option.map_eq_some_iff.mp ha
      cases heq
      exact hG.refl s
    · cases code with
      | some code =>
        refine .bind (.modify (hG.update fun _ => ?_)) fun _ => .done code
        exact ⟨rfl, rfl, rfl, rfl, rfl⟩
      | none => exact .done none
  · exact .done none

end Ending

section Traffic

variable {G : Server → Server → Prop} {id : ChannelId}

theorem behaves_hearing (hG : Allows Channel.SameFlags id G) : (hearing id).Behaves G := by
  refine .repeatFrom fun _ => .bind (.await fun s a s' ha => ?_) fun heard => ?_
  · obtain ⟨⟨heard, client⟩, hclient, heq⟩ := Option.map_eq_some_iff.mp ha
    cases heq
    refine hG.fromChannel (fun ch a ch' hch => ?_) hclient
    obtain ⟨_, -, heq⟩ := Option.map_eq_some_iff.mp hch
    cases heq
    exact ⟨rfl, rfl⟩
  · cases heard with
    | line text => exact .bind (.modify (hG.update fun ch => ch.flags_accept text)) fun _ => .done _
    | ended => exact .done _

variable {op : Operation} {params : Json}

theorem behaves_send (hG : Allows Channel.SameFlags id G)
    (hpost : ∀ s : Server, G s { s with client := (s.client.post id op params).2 }) (limit : Duration) :
    (send id op params limit).Behaves G := by
  refine .bind (.update hpost) fun posted => ?_
  cases posted with
  | error f => exact .done _
  | ok n =>
    refine .bind (.awaitFor hG.refl fun s a s' ha => ?_) fun answer => ?_
    · obtain ⟨⟨o, client⟩, hclient, heq⟩ := Option.map_eq_some_iff.mp ha
      cases heq
      exact hG.fromChannel (fun _ _ _ => Channel.flags_collect) hclient
    · cases answer with
      | some o => exact .done o
      | none => exact .bind (.modify (hG.update fun _ => ⟨rfl, rfl⟩)) fun _ => .done _

theorem behaves_request {α : Type} (hG : ∀ id, Allows Channel.SameFlags id G)
    (hpost : ∀ id (s : Server), G s { s with client := (s.client.post id op params).2 })
    (read : Json → Option α) : (request op params read).Behaves G := by
  refine .bind (.read (hG 0).refl _) fun target => ?_
  cases target with
  | error f => exact .done _
  | ok id =>
    refine .bind (.read (hG 0).refl _) fun limit => ?_
    refine .bind (behaves_send (hG id) (hpost id) limit) fun answer => ?_
    cases answer with
    | error f => exact .done _
    | ok j =>
      dsimp only
      split
      · exact .done _
      · exact .done _

end Traffic

section Asking

variable {G : Server → Server → Prop}

theorem behaves_document (hG : ∀ s, G s s) (u : Url) : (document? u).Behaves G := by
  refine .bind (.read hG _) fun known => ?_
  cases known with
  | some s => exact .done _
  | none =>
    dsimp only
    split
    · exact .done _
    · refine .bind ⟨trivial, trivial⟩ fun _ => .bind (.read hG _) fun stat => ?_
      cases stat with
      | none => exact .done _
      | some fingerprint =>
        refine .bind ⟨trivial, trivial⟩ fun _ => .bind (.read hG _) fun text => ?_
        cases text <;> exact .done _

/-- Joining a flight is what its work is, but for changes of the table. -/
theorem behaves_join {κ ν : Type} [BEq κ] {l : Lens Server (FlightTable κ ν)} (hl : ∀ s t, G s (l.set t s))
    {key : κ} {settled : Server → Option ν} {work : Unit → Job (Except Failure ν)}
    (hwork : ∀ a, (work a).Behaves G) :
    (FlightTable.join l key settled (fun s => ((), s)) work).Behaves G := by
  refine ⟨FlightTable.keeps_join hl hl fun a => (hwork a).keeps, fun joined => ?_⟩
  obtain ⟨_ | ⟨id, a⟩, ticket⟩ := joined
  · trivial
  · exact ⟨(hwork a).dropsNone.bind fun _ _ => trivial, fun _ => trivial⟩

theorem behaves_await {κ ν : Type} (hG : ∀ s, G s s) (l : Lens Server (FlightTable κ ν))
    (ticket : Ticket ν) : (FlightTable.await l ticket).Behaves G := by
  refine ⟨FlightTable.keeps_await hG l ticket, ?_⟩
  cases ticket with
  | ready a => trivial
  | flight id => exact fun _ => trivial

/-- Asking the store for an analysis is what computing it is, but for changes of the store. -/
theorem behaves_getOrCompute (hG : ∀ s, G s s) (hstore : ∀ s a, G s (analysesLens.set a s)) (f : Fingerprint)
    {compute : Job (Except Failure Analysis)} (hcompute : compute.Behaves G) :
    (AnalysisStore.getOrCompute analysesLens f compute).Behaves G := by
  refine .bind (.read hG _) fun held => ?_
  cases held with
  | some a => exact .done _
  | none =>
    refine .bind (.read hG _) fun started => .bind ?_ fun ticket => behaves_await hG _ ticket
    refine behaves_join (fun s t => hstore s _) fun _ => .bind hcompute fun outcome => ?_
    cases outcome with
    | ok a => exact .bind (.modify fun s => hstore s _) fun _ => .done _
    | error f => exact .done _

end Asking

theorem Steady.allows (id : ChannelId) : Allows Channel.SameFlags id Steady where
  refl := Steady.refl
  amend _ _ h := Client.sameStanding_insert h.1 h.2

theorem Steady.allowsCalm (id : ChannelId) : Allows Channel.Calm id Steady :=
  (Steady.allows id).mono fun _ _ h => ⟨h.isClosing, h.isDead⟩

end Server
end LanguageServer
