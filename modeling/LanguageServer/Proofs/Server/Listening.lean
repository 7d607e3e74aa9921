import LanguageServer.Proofs.Analyzer.Books
import LanguageServer.Proofs.Analyzer.Wire
import LanguageServer.Proofs.Task.Frame

/-! The reader of a process and the bytes that the process writes. Lines that answer no request that
waits are passed over, one after another, up to the first line that is no text. -/
namespace LanguageServer.Server

open Analyzer

variable {id j : ChannelId} {s s' s'' : Server} {line rest bytes more : List UInt8}
  {lines : List (List UInt8)} {steps : List (Server × Server)} {t t' : Job Unit}

/-- The two streams of the process of a channel. -/
def link (id : ChannelId) (s : Server) : Link := (s.client.channel id).link

/-- The requests that wait on a channel. -/
def pending (id : ChannelId) (s : Server) : List RequestId := (s.client.channel id).pending

/-- The answer to a request that has come and was not collected. -/
def outcome? (id : ChannelId) (n : RequestId) (s : Server) : Option (Except Failure Json) :=
  (s.client.channel id).outcomes.find? n

/-- The request that a line of bytes answers, and how. -/
def reply? (line : List UInt8) : Option (RequestId × Except Failure Json) :=
  (Text.Utf8.text? line).bind answer?

/-- The same server, where less is left to read. -/
def readTo (id : ChannelId) (rest : List UInt8) (s : Server) : Server :=
  clientLens.modify (Client.updateChannel id fun ch => { ch with link := { ch.link with output := rest } }) s

theorem channel_modify (id j : ChannelId) (f : Channel → Channel) (s : Server) :
    (clientLens.modify (Client.updateChannel id f) s).client.channel j =
      if id == j then f (s.client.channel id) else s.client.channel j :=
  s.client.channel_updateChannel id j f

@[simp] theorem link_readTo : (s.readTo id rest).link id = { s.link id with output := rest } := by
  simp [link, readTo, channel_modify]

@[simp] theorem pending_readTo : (s.readTo id rest).pending j = s.pending j := by
  simp only [pending, readTo, channel_modify]
  split
  · next h => rw [← eq_of_beq h]
  · rfl

@[simp] theorem outcome?_readTo {n : RequestId} : (s.readTo id rest).outcome? j n = s.outcome? j n := by
  simp only [outcome?, readTo, channel_modify]
  split
  · next h => rw [← eq_of_beq h]
  · rfl

@[simp] theorem status_readTo : (s.readTo id rest).client.status = s.client.status := by
  have h (j : ChannelId) : ((s.readTo id rest).client.channel j).pending = (s.client.channel j).pending :=
    pending_readTo
  have hphase : (s.readTo id rest).client.phase = s.client.phase := rfl
  have hactive : (s.readTo id rest).client.active = s.client.active := rfl
  simp only [Client.status, hphase, hactive, h]

/-- One line is taken off what a process has written. -/
structure Takes (id : ChannelId) (line : List UInt8) (s s' : Server) : Prop where
  next : (s.link id).Next line (s'.link id).output
  /-- Nothing else happens unless it answers a request that waits. -/
  noise : (∀ n o, reply? line = some (n, o) → n ∉ s.pending id) →
    s' = s.readTo id (s'.link id).output ∧ s'.client.status = s.client.status ∧
      ∀ j, s'.pending j = s.pending j ∧ ∀ n, s'.outcome? j n = s.outcome? j n
  /-- An answer is there for the request, and nothing happens to other requests. -/
  reply : ∀ n o, reply? line = some (n, o) → n ∈ s.pending id →
    s'.outcome? id n = some o ∧ (∀ m, m ∈ s'.pending id ↔ m ∈ s.pending id ∧ m ≠ n) ∧
      (∀ m, m ≠ n → s'.outcome? id m = s.outcome? id m) ∧
      ∀ j, j ≠ id → s'.client.channel j = s.client.channel j

/-- The lines that a reader has taken in a course of moves. -/
inductive Lines (id : ChannelId) : List (Server × Server) → List (List UInt8) → Prop
  | nil : Lines id [] []
  | idle {steps : List (Server × Server)} {lines : List (List UInt8)} {s : Server} :
    Lines id steps lines → Lines id (steps ++ [(s, s)]) lines
  | take {steps : List (Server × Server)} {lines : List (List UInt8)} {line : List UInt8}
      {s s' : Server} : Lines id steps lines → Takes id line s s' →
    Lines id (steps ++ [(s, s')]) (lines ++ [line])

/-- What others do while a reader waits: anything, but nobody else reads from its process, and a
process that has closed its output writes nothing. -/
structure Meanwhile (id : ChannelId) (more : List UInt8) (s s' : Server) : Prop where
  output : (s'.link id).output = (s.link id).output ++ more
  isMute : (s.link id).isMute = true → (s'.link id).isMute = true ∧ more = []

/-- A reader among others: what its process has written, the moves it has made, each from one server to
another, the server as it is now, and the task. -/
inductive Course (id : ChannelId) : List UInt8 → List (Server × Server) → Server → Job Unit → Prop
  | start (s : Server) : Course id (s.link id).output [] s (listen id)
  | other {bytes more : List UInt8} {steps : List (Server × Server)} {s s' : Server} {t : Job Unit} :
    Course id bytes steps s t → Meanwhile id more s s' → Course id (bytes ++ more) steps s' t
  | move {bytes : List UInt8} {steps : List (Server × Server)} {s : Server} {t t' : Job Unit}
      {now : Instant} {next : TaskId} {e : Machine.Effects Server} : Course id bytes steps s t →
    Machine.resume now t ⟨s, next, [], []⟩ = some (e, t') →
    Course id bytes (steps ++ [(s, e.state)]) e.state t'

/-- What a reader does when it has heard the end. -/
def leaving (id : ChannelId) : Job Unit := do
  if ← Task.read fun s => (s.client.channel id).isClosing then
    onClient (Client.updateChannel id (·.failAll .terminated))
  else
    let code ← reap id
    onClient (·.disconnect id code)

def hear? (id : ChannelId) (s : Server) : Option (Link.Heard × Server) :=
  (s.client.hear id).map fun (heard, client) => (heard, { s with client })

/-- A reader that waits for the next line. -/
def attending (id : ChannelId) : Job Unit := .wait none (fun _ s => hear? id s) fun
  | .line text => (onClient (Client.updateChannel id (·.accept text))).bind fun _ => listen id
  | .ended => leaving id

theorem resume_listen (now : Instant) (e : Machine.Effects Server) :
    Machine.resume now (listen id) e = some (e, attending id) := by
  refine congrArg (fun k => some (e, Task.wait none (fun _ s => hear? id s) k)) (funext fun heard => ?_)
  cases heard <;> rfl

/-- What is heard next is the next line, or the end when everything was read. -/
theorem hear?_eq_some {heard : Link.Heard} (h : hear? id s = some (heard, s')) :
    (∃ line rest, (s.link id).Next line rest ∧ heard = Link.hear line ∧ s' = s.readTo id rest) ∨
      (s.link id).isMute = true ∧ (s.link id).output = [] ∧ heard = .ended ∧ s' = s.readTo id [] := by
  obtain ⟨⟨_, c⟩, hheard, heq⟩ := Option.map_eq_some_iff.mp h
  cases heq
  obtain ⟨⟨_, ch⟩, hch, heq⟩ := Option.map_eq_some_iff.mp hheard
  cases heq
  obtain ⟨⟨_, l⟩, hl, heq⟩ := Option.map_eq_some_iff.mp hch
  cases heq
  obtain ⟨line, rest, hnext, rfl, rfl⟩ | ⟨hmute, hout, rfl, rfl⟩ := Link.listen_eq_some hl
  · exact .inl ⟨line, rest, hnext, rfl, rfl⟩
  · exact .inr ⟨hmute, hout, rfl, rfl⟩

theorem hear?_eq_none (h : hear? id s = none) :
    10 ∉ (s.link id).output ∧ (s.link id).isMute = false :=
  Link.listen_eq_none (Option.map_eq_none_iff.mp (Option.map_eq_none_iff.mp (Option.map_eq_none_iff.mp h)))

theorem updateChannel_eq_self {c : Client} {f g : Channel → Channel}
    (h : f (g (c.channel id)) = g (c.channel id)) :
    (c.updateChannel id g).updateChannel id f = c.updateChannel id g := by
  have hchannel : (c.updateChannel id g).channel id = g (c.channel id) := by
    simp [Client.channel_updateChannel]
  have htable : (c.updateChannel id g).channels.insert id (f ((c.updateChannel id g).channel id)) =
      (c.updateChannel id g).channels := by
    rw [hchannel, h]
    exact Table.insert_insert ..
  exact congrArg (fun channels => { c.updateChannel id g with channels }) htable

/-- What is done with a line once it is read: an answer settles its request, and all else changes
nothing. -/
def answered (a : Option (RequestId × Except Failure Json)) (ch : Channel) : Channel :=
  match a with
  | some (n, o) => ch.settle n o
  | none => ch

theorem link_answered (a : Option (RequestId × Except Failure Json)) (ch : Channel) :
    (answered a ch).link = ch.link := by
  unfold answered
  split
  · unfold Channel.settle
    split <;> rfl
  · rfl

theorem answered_of_noise {a : Option (RequestId × Except Failure Json)} {ch : Channel}
    (h : ∀ n o, a = some (n, o) → n ∉ ch.pending) : answered a ch = ch := by
  unfold answered
  split
  · next n o => exact if_neg (by simpa using h n o rfl)
  · rfl

/-- A line is taken in as it should be. -/
theorem takes_answered {a : Option (RequestId × Except Failure Json)}
    (hnext : (s.link id).Next line rest) (ha : reply? line = a) :
    Takes id line s (clientLens.modify (Client.updateChannel id (answered a)) (s.readTo id rest)) := by
  have hself : (clientLens.modify (Client.updateChannel id (answered a)) (s.readTo id rest)).client.channel id =
      answered a ((s.readTo id rest).client.channel id) := by
    rw [channel_modify, if_pos (beq_self_eq_true id)]
  have houtput : ((clientLens.modify (Client.updateChannel id (answered a)) (s.readTo id rest)).link
      id).output = rest := by
    rw [link, hself, link_answered]
    exact congrArg Link.output link_readTo
  have hpending : ((s.readTo id rest).client.channel id).pending = s.pending id := pending_readTo
  refine ⟨houtput.symm ▸ hnext, fun hnoise => ?_, fun n o h hn => ?_⟩
  · have hclient : (s.readTo id rest).client.updateChannel id (answered a) = (s.readTo id rest).client :=
      updateChannel_eq_self (answered_of_noise fun n o h => hnoise n o (ha.trans h))
    have hsame : clientLens.modify (Client.updateChannel id (answered a)) (s.readTo id rest) =
        s.readTo id rest := by
      show { s.readTo id rest with client := (s.readTo id rest).client.updateChannel id (answered a) } = _
      rw [hclient]
    rw [hsame]
    exact ⟨by simp, status_readTo, fun j => ⟨pending_readTo, fun n => outcome?_readTo⟩⟩
  · obtain rfl : a = some (n, o) := ha.symm.trans h
    have hwaits : n ∈ ((s.readTo id rest).client.channel id).pending := hpending ▸ hn
    have hsettled : (clientLens.modify (Client.updateChannel id (answered (some (n, o))))
        (s.readTo id rest)).client.channel id = ((s.readTo id rest).client.channel id).settle n o := hself
    refine ⟨?_, fun m => ?_, fun m hm => ?_, fun j hj => ?_⟩
    · rw [outcome?, hsettled, Channel.find?_outcomes_settle, if_pos ⟨rfl, hwaits⟩]
    · rw [pending, hsettled, Channel.mem_pending_settle, hpending]
    · rw [outcome?, hsettled, Channel.find?_outcomes_settle, if_neg fun h => hm h.1]
      exact outcome?_readTo
    · have hj : (id == j) = false := beq_eq_false_iff_ne.mpr hj.symm
      rw [channel_modify, hj, if_neg Bool.false_ne_true, readTo, channel_modify, hj,
        if_neg Bool.false_ne_true]

theorem accept_eq_answered (text : String) :
    (fun ch : Channel => ch.accept text) = answered (answer? text) := by
  funext ch
  rw [Channel.accept_eq]
  generalize answer? text = a
  rfl

/-- Both streams of a process are as they were. -/
def SameLink (id : ChannelId) (s s' : Server) : Prop := s'.link id = s.link id

theorem SameLink.trans (h : SameLink id s s') (h' : SameLink id s' s'') : SameLink id s s'' :=
  Eq.trans h' h

theorem sameLink_modify {f : Channel → Channel} (hf : ∀ ch, (f ch).link = ch.link) (s : Server) :
    SameLink id s (clientLens.modify (Client.updateChannel j f) s) := by
  rw [SameLink, link, channel_modify]
  split
  · next h => rw [hf, eq_of_beq h]; rfl
  · rfl

theorem keeps_reap : (reap j).Keeps (SameLink id) := by
  have hsame (s : Server) : SameLink id s s := rfl
  have hset (b : Bool) (s : Server) :
      SameLink id s (clientLens.modify (Client.updateChannel j fun ch => { ch with isReaping := b }) s) := by
    refine sameLink_modify (fun _ => ?_) s
    rfl
  refine Task.keeps_exclusive hsame hset ?_
  refine (Task.keeps_read hsame _).bind fun hasChild => ?_
  split
  · refine (Task.keeps_awaitFor hsame fun s a s' ha => ?_).bind fun code => ?_
    · obtain ⟨_, -, heq⟩ := Option.map_eq_some_iff.mp ha
      cases heq
      exact hsame s
    · cases code with
      | some code =>
        refine (Task.keeps_modify (sameLink_modify fun _ => ?_)).bind fun _ => trivial
        rfl
      | none => trivial
  · trivial

/-- The terms of a task that leaves the streams alone, whatever others do. -/
def hushed (id : ChannelId) : Contract Server Server where
  holds := SameLink id
  own v w := v = w
  others _ _ := True
  stalls _ := True
  isTotal := False
  isShared := True

theorem hushed_orderly : (hushed id).Orderly where
  shared := trivial
  endless := not_false
  stalls _ := trivial
  own_refl _ := rfl
  own_trans _ _ _ h h' := Eq.trans h h'
  others_trans _ _ _ _ _ := trivial
  others_of_own _ _ _ _ _ := trivial

/-- A channel takes no more requests, and none waits on it. -/
def IsLost (id : ChannelId) (s : Server) : Prop :=
  (s.client.channel id).isDead = true ∧ s.pending id = []

/-- How a reader leaves: the streams as they were, and the channel lost. -/
def Left (id : ChannelId) (_ : Unit) (s s' : Server) : Prop := SameLink id s s' ∧ IsLost id s'

theorem meets_leaving (s : Server) : (leaving id).Meets (hushed id) (Left id) s s := by
  have hholds (w s s' : Server) (h : SameLink id s s') (hs : SameLink id w s) : SameLink id w s' :=
    hs.trans h
  refine (Task.meets_then _ _ _).mpr ((Task.meets_read _ _).mpr ?_)
  split
  · refine (Task.meets_modify _ _).mpr ⟨sameLink_modify (fun _ => ?_) s, ?_⟩
    · rfl
    rw [IsLost, pending, channel_modify, if_pos (beq_self_eq_true id)]
    exact ⟨rfl, rfl⟩
  · refine (Task.meets_then _ _ _).mpr (keeps_reap.meetsFrom hushed_orderly hholds rfl ?_)
    intro code v s _ hs
    have hamends := s.client.amends_disconnect id code
    refine (Task.meets_modify _ _).mpr ⟨hs.trans ?_, ?_⟩
    · show ((s.client.disconnect id code).channel id).link = (s.client.channel id).link
      rw [hamends.self]
      rfl
    · show ((s.client.disconnect id code).channel id).isDead = true ∧
        ((s.client.disconnect id code).channel id).pending = []
      rw [hamends.self]
      exact ⟨rfl, rfl⟩

/-- A task that leaves the streams alone, and the channel lost in the end. -/
def IsLeaving (id : ChannelId) (t : Job Unit) : Prop :=
  Machine.isDone t = false ∧ ∀ s, t.MeetsFrom (hushed id) true (Left id) s s

theorem leaves_iff {t : Job Unit} (h : (hushed id).Leaves (Left id) s s' t) :
    SameLink id s s' ∧ (Machine.isDone t = true ∧ IsLost id s' ∨ IsLeaving id t) := by
  obtain ⟨_, rfl, hsame, hlost⟩ | ⟨hdone, hsame, hlater⟩ := h
  · exact ⟨hsame, .inl ⟨rfl, hlost⟩⟩
  · exact ⟨hsame, .inr ⟨hdone, fun s => hlater s s trivial rfl⟩⟩

theorem advance_leaving (id : ChannelId) (now : Instant) (e : Machine.Effects Server) (he : e.spawned = []) :
    SameLink id e.state (Machine.advance now (leaving id) e).1.state ∧
      (Machine.isDone (Machine.advance now (leaving id) e).2 = true ∧
          IsLost id (Machine.advance now (leaving id) e).1.state ∨
        IsLeaving id (Machine.advance now (leaving id) e).2) := by
  obtain ⟨v, hv, -, hleaves⟩ := Contract.leaves_advance hushed_orderly now e (meets_leaving e.state)
    (by simp [he])
  obtain rfl : e.state = v := hv
  exact leaves_iff hleaves

theorem IsLeaving.resume (h : IsLeaving id t) {now : Instant} {next : TaskId}
    {e : Machine.Effects Server} (hr : Machine.resume now t ⟨s, next, [], []⟩ = some (e, t')) :
    SameLink id s e.state ∧ (Machine.isDone t' = true ∧ IsLost id e.state ∨ IsLeaving id t') := by
  obtain ⟨v, hv, -, hleaves⟩ := Contract.leaves_resume hushed_orderly now (e := ⟨s, next, [], []⟩) (h.2 s)
    (by simp) hr
  obtain rfl : s = v := hv
  exact leaves_iff hleaves

/-- Why a reader has left: a line that is no text, or the end of the output. -/
inductive Cause (id : ChannelId) (bytes : List UInt8) (lines : List (List UInt8)) (s : Server) : Prop
  | broken {line : List UInt8} : Text.Utf8.text? line = none →
    Cut (s.link id).isMute bytes (lines ++ [line]) (s.link id).output → Cause id bytes lines s
  | ended : (s.link id).isMute = true → Cut true bytes lines [] → Cause id bytes lines s

/-- A reader takes one line after another, and once it has left it reads no more. -/
inductive Stage (id : ChannelId) (bytes : List UInt8) (lines : List (List UInt8))
    (reading parting : List (Server × Server)) (s : Server) (t : Job Unit) : Prop
  | reading : parting = [] → Cut (s.link id).isMute bytes lines (s.link id).output →
    t = listen id ∧ reading.length = 2 * lines.length ∨
      t = attending id ∧ reading.length = 2 * lines.length + 1 → Stage id bytes lines reading parting s t
  | parting : Cause id bytes lines s → parting ≠ [] →
    (∀ step ∈ parting.tail, (step.2.link id).output = (step.1.link id).output) →
    (Machine.isDone t = true ∧ (∃ step, parting.getLast? = some step ∧ IsLost id step.2) ∨ IsLeaving id t) →
    Stage id bytes lines reading parting s t

/-- A reader has taken the first lines of the stream, each as it should be taken. -/
def Attends (id : ChannelId) (bytes : List UInt8) (steps : List (Server × Server)) (s : Server)
    (t : Job Unit) : Prop :=
  ∃ lines reading parting, steps = reading ++ parting ∧ Lines id reading lines ∧
    (∀ line ∈ lines, (Text.Utf8.text? line).isSome = true) ∧ Stage id bytes lines reading parting s t

theorem Cause.other (h : Cause id bytes lines s) (hs : Meanwhile id more s s') :
    Cause id (bytes ++ more) lines s' := by
  cases h with
  | broken htext hcut =>
    have hgrown := hcut.append hs.isMute
    rw [← hs.output] at hgrown
    exact .broken htext hgrown
  | ended hmute hcut =>
    obtain ⟨hmute', rfl⟩ := hs.isMute hmute
    rw [List.append_nil]
    exact .ended hmute' hcut

theorem Cause.same (h : Cause id bytes lines s) (hs : SameLink id s s') : Cause id bytes lines s' := by
  cases h with
  | broken htext hcut => exact .broken htext (hs.symm ▸ hcut)
  | ended hmute hcut => exact .ended (hs.symm ▸ hmute) hcut

theorem isDone_listen (id : ChannelId) : Machine.isDone (listen id) = false := rfl

theorem isDone_attending (id : ChannelId) : Machine.isDone (attending id) = false := rfl

/-- A move of a reader that waits for a line: it takes the line and goes on, or it leaves. -/
theorem resume_attending {now : Instant} {next : TaskId} {e : Machine.Effects Server}
    (h : Machine.resume now (attending id) ⟨s, next, [], []⟩ = some (e, t')) :
    (∃ line, (Text.Utf8.text? line).isSome = true ∧ Takes id line s e.state ∧
        (e.state.link id).isMute = (s.link id).isMute ∧ t' = listen id) ∨
      ∃ rest, ((∃ line, Text.Utf8.text? line = none ∧ (s.link id).Next line rest) ∨
          (s.link id).isMute = true ∧ (s.link id).output = [] ∧ rest = []) ∧
        SameLink id (s.readTo id rest) e.state ∧
        (Machine.isDone t' = true ∧ IsLost id e.state ∨ IsLeaving id t') := by
  obtain ⟨⟨heard, s'⟩, hheard, hmove⟩ := Option.map_eq_some_iff.mp h
  have hleft (rest : List UInt8) (hs' : s' = s.readTo id rest) (hended : heard = .ended) :
      SameLink id (s.readTo id rest) e.state ∧
        (Machine.isDone t' = true ∧ IsLost id e.state ∨ IsLeaving id t') := by
    subst hs' hended
    have hleaving := advance_leaving id now ⟨s.readTo id rest, next, [], []⟩ rfl
    rw [show Machine.advance now (leaving id) ⟨s.readTo id rest, next, [], []⟩ = (e, t') from hmove]
      at hleaving
    exact hleaving
  -- there is a line to be read, or the output has ended
  obtain ⟨line, rest, hnext, rfl, rfl⟩ | ⟨hmute, hout, rfl, rfl⟩ := hear?_eq_some hheard
  · cases htext : Text.Utf8.text? line with
    | some text =>
      have hline : Link.hear line = .line text := by rw [Link.hear, htext]
      rw [hline] at hmove
      have hreply : reply? line = answer? text := by rw [reply?, htext, Option.bind_some]
      have hend : (⟨clientLens.modify (Client.updateChannel id (·.accept text)) (s.readTo id rest), next,
          [], []⟩, listen id) = (e, t') := hmove
      rw [accept_eq_answered] at hend
      cases hend
      refine .inl ⟨line, by rw [htext]; rfl, takes_answered hnext hreply, ?_, rfl⟩
      have hlink : SameLink id _ (clientLens.modify (Client.updateChannel id _) _) :=
        sameLink_modify (link_answered (answer? text)) (s.readTo id rest)
      rw [hlink, link_readTo]
    | none =>
      have hended : Link.hear line = .ended := by rw [Link.hear, htext]
      exact .inr ⟨rest, .inl ⟨line, htext, hnext⟩, hleft rest rfl hended⟩
  · exact .inr ⟨[], .inr ⟨hmute, hout, rfl⟩, hleft [] rfl rfl⟩

theorem Stage.reading_move {now : Instant} {next : TaskId} {e : Machine.Effects Server}
    (hlines : Lines id steps lines) (htexts : ∀ line ∈ lines, (Text.Utf8.text? line).isSome = true)
    (hcut : Cut (s.link id).isMute bytes lines (s.link id).output)
    (ht : t = listen id ∧ steps.length = 2 * lines.length ∨
      t = attending id ∧ steps.length = 2 * lines.length + 1)
    (hmove : Machine.resume now t ⟨s, next, [], []⟩ = some (e, t')) :
    Attends id bytes (steps ++ [(s, e.state)]) e.state t' := by
  obtain ⟨rfl, hlength⟩ | ⟨rfl, hlength⟩ := ht
  · rw [resume_listen] at hmove
    cases hmove
    exact ⟨lines, _, [], (List.append_nil _).symm, hlines.idle, htexts,
      .reading rfl hcut (.inr ⟨rfl, by simp [hlength]⟩)⟩
  · obtain ⟨line, htext, htakes, hmute, rfl⟩ | ⟨rest, hwhy, hsame, hleft⟩ := resume_attending hmove
    · refine ⟨lines ++ [line], _, [], (List.append_nil _).symm, hlines.take htakes, fun k hk => ?_,
        .reading rfl (hmute.symm ▸ hcut.next htakes.next) (.inl ⟨rfl, by simp [hlength]; omega⟩)⟩
      obtain hk | hk := List.mem_append.mp hk
      · exact htexts k hk
      · exact List.mem_singleton.mp hk ▸ htext
    · have hcause : Cause id bytes lines e.state := by
        have hlink : e.state.link id = { s.link id with output := rest } := by
          rw [show e.state.link id = (s.readTo id rest).link id from hsame, link_readTo]
        obtain ⟨line, htext, hnext⟩ | ⟨hmute, hout, rfl⟩ := hwhy
        · refine .broken htext ?_
          rw [hlink]
          exact hcut.next hnext
        · rw [hout, hmute] at hcut
          exact .ended (hlink ▸ hmute) hcut
      refine ⟨lines, steps, [(s, e.state)], rfl, hlines, htexts, .parting hcause (List.cons_ne_nil _ _)
        (fun _ hstep => absurd hstep List.not_mem_nil) (hleft.imp_left fun ⟨hdone, hlost⟩ => ?_)⟩
      exact ⟨hdone, (s, e.state), rfl, hlost⟩

/-- A reader that leaves makes a move. -/
theorem Stage.parting_move {parting : List (Server × Server)} {now : Instant} {next : TaskId}
    {e : Machine.Effects Server} (hcause : Cause id bytes lines s) (hparting : parting ≠ [])
    (hsilent : ∀ step ∈ parting.tail, (step.2.link id).output = (step.1.link id).output)
    (ht : IsLeaving id t) (hmove : Machine.resume now t ⟨s, next, [], []⟩ = some (e, t')) :
    Stage id bytes lines steps (parting ++ [(s, e.state)]) e.state t' := by
  obtain ⟨hsame, hleft⟩ := ht.resume hmove
  refine .parting (hcause.same hsame) (by simp) (fun step hstep => ?_)
    (hleft.imp_left fun ⟨hdone, hlost⟩ => ⟨hdone, (s, e.state), List.getLast?_concat, hlost⟩)
  rw [List.tail_append_of_ne_nil hparting] at hstep
  obtain hstep | hstep := List.mem_append.mp hstep
  · exact hsilent step hstep
  · cases List.mem_singleton.mp hstep
    exact congrArg Link.output hsame

theorem Course.attends (h : Course id bytes steps s t) : Attends id bytes steps s t := by
  induction h with
  | start s =>
    have hcut : Cut (s.link id).isMute (List.flatMap (· ++ [10]) [] ++ (s.link id).output) []
      (s.link id).output := .marked nofun
    exact ⟨[], [], [], rfl, .nil, nofun, .reading rfl hcut (.inl ⟨rfl, rfl⟩)⟩
  | other _ hs ih =>
    obtain ⟨lines, reading, parting, hsteps, hlines, htexts, hstage⟩ := ih
    refine ⟨lines, reading, parting, hsteps, hlines, htexts, ?_⟩
    cases hstage with
    | reading hparting hcut ht => exact .reading hparting (hs.output ▸ hcut.append hs.isMute) ht
    | parting hcause hparting hsilent ht => exact .parting (hcause.other hs) hparting hsilent ht
  | @move bytes steps s t t' now next e _ hmove ih =>
    obtain ⟨lines, reading, parting, rfl, hlines, htexts, hstage⟩ := ih
    cases hstage with
    | reading hparting hcut ht =>
      subst hparting
      rw [List.append_nil]
      exact Stage.reading_move hlines htexts hcut ht hmove
    | parting hcause hparting hsilent ht =>
      refine ⟨lines, reading, parting ++ [(s, e.state)], List.append_assoc _ _ _, hlines, htexts, ?_⟩
      obtain ⟨hdone, -⟩ | hleaving := ht
      · cases t with
        | done a => cases hmove
        | _ => cases hdone
      · exact Stage.parting_move hcause hparting hsilent hleaving hmove

/-- A reader that has left: it met a line that is no text, or read all of the output to its end. -/
structure GivenUp (id : ChannelId) (bytes : List UInt8) (lines : List (List UInt8))
    (parting : List (Server × Server)) (s : Server) (t : Job Unit) : Prop where
  cause : (∃ line, Text.Utf8.text? line = none ∧ lines ++ [line] <+: bytes.splitOn 10) ∨
    (s.link id).isMute = true ∧ (bytes.splitOn 10 = lines ∨ bytes.splitOn 10 = lines ++ [[]])
  /-- What comes after is never read. -/
  silent : ∀ step ∈ parting.tail, (step.2.link id).output = (step.1.link id).output
  /-- The reader ends with all requests failed. -/
  lost : Machine.isDone t = true → ∃ step, parting.getLast? = some step ∧ IsLost id step.2

/-- What a reader has made of a stream of bytes: it has taken the first of its lines as they should be
taken, all of them text. It goes on, at every second move with a line, and stops only where no line is
complete; or it has left. -/
def ReadsLines (id : ChannelId) (bytes : List UInt8) (steps : List (Server × Server)) (s : Server)
    (t : Job Unit) : Prop :=
  ∃ lines reading parting, steps = reading ++ parting ∧ Lines id reading lines ∧ lines <+: bytes.splitOn 10 ∧
    (∀ line ∈ lines, (Text.Utf8.text? line).isSome = true) ∧
    (parting = [] ∧ Machine.isDone t = false ∧ steps.length ≤ 2 * lines.length + 1 ∧
        (∀ now next, Machine.resume now t ⟨s, next, [], []⟩ = none →
          lines = (bytes.splitOn 10).dropLast ∧ (s.link id).isMute = false) ∨
      parting ≠ [] ∧ GivenUp id bytes lines parting s t)

/-- Whatever bytes a process writes, lines that answer no request that waits are harmless and all answers
arrive, up to the first line that is no text. -/
theorem Course.readsLines (h : Course id bytes steps s t) : ReadsLines id bytes steps s t := by
  obtain ⟨lines, reading, parting, rfl, hlines, htexts, hstage⟩ := h.attends
  refine ⟨lines, reading, parting, rfl, hlines, ?_⟩
  cases hstage with
  | reading hparting hcut ht =>
    subst hparting
    refine ⟨hcut.isPrefix, htexts, .inl ⟨rfl, ?_⟩⟩
    rw [List.append_nil]
    obtain ⟨rfl, hlength⟩ | ⟨rfl, hlength⟩ := ht
    · refine ⟨isDone_listen id, by omega, fun now next hstuck => ?_⟩
      rw [resume_listen] at hstuck
      cases hstuck
    · refine ⟨isDone_attending id, Nat.le_of_eq hlength, fun now next hstuck => ?_⟩
      obtain ⟨hout, hmute⟩ := hear?_eq_none (Option.map_eq_none_iff.mp hstuck)
      rw [hmute] at hcut
      exact ⟨hcut.eq_dropLast hout, hmute⟩
  | parting hcause hparting hsilent ht =>
    have hlost : Machine.isDone t = true → ∃ step, parting.getLast? = some step ∧ IsLost id step.2 := by
      intro hdone
      obtain ⟨-, hlost⟩ | hleaving := ht
      · exact hlost
      · rw [hleaving.1] at hdone
        cases hdone
    cases hcause with
    | broken htext hcut =>
      have hbegins := hcut.isPrefix
      exact ⟨(List.prefix_append _ _).trans hbegins, htexts,
        .inr ⟨hparting, .inl ⟨_, htext, hbegins⟩, hsilent, hlost⟩⟩
    | ended hmute hcut =>
      exact ⟨hcut.isPrefix, htexts, .inr ⟨hparting, .inr ⟨hmute, hcut.eq_all⟩, hsilent, hlost⟩⟩

section Noise

/-- One more move of a reader on its own. -/
def moved (r : List (Server × Server) × Server × Job Unit) :
    Option (List (Server × Server) × Server × Job Unit) :=
  (Machine.resume ⟨0⟩ r.2.2 ⟨r.2.1, 0, [], []⟩).map fun (e, t) => (r.1 ++ [(r.2.1, e.state)], e.state, t)

def movedBy : Nat → List (Server × Server) × Server × Job Unit →
    Option (List (Server × Server) × Server × Job Unit)
  | 0, r => some r
  | n + 1, r => (moved r).bind (movedBy n)

theorem Course.goesOn {n : Nat} {r : List (Server × Server) × Server × Job Unit}
    (h : Course id bytes steps s t) (hr : movedBy n (steps, s, t) = some r) :
    Course id bytes r.1 r.2.1 r.2.2 := by
  induction n generalizing steps s t with
  | zero =>
    cases hr
    exact h
  | succ n ih =>
    obtain ⟨q, hq, hr⟩ := Option.bind_eq_some_iff.mp hr
    obtain ⟨⟨e, t'⟩, hmove, rfl⟩ := Option.map_eq_some_iff.mp hq
    exact ih (h.move hmove) hr

/-- Two requests wait. A note, a blank line, an unknown number, an answer to the first request, a byte
that is no text, and an answer to the second. -/
def babble : List UInt8 :=
  "starting\n\n\x7b\"id\":9\x7d\n\x7b\"id\":1\x7d\n".toUTF8.toList ++ [255, 10] ++
    "\x7b\"id\":2\x7d\n".toUTF8.toList

def babbling : Server :=
  let s := new ⟨.empty, [], .scripted none, [], 0, none⟩ {}
  let ch : Channel := { Channel.connect .fresh none false with pending := [1, 2] }
  { s with client :=
    { s.client with
      phase := .running
      active := some 0
      channels := Table.empty.insert 0 { ch with link := ch.link.say babble } } }

/-- How a request has failed, if it was answered. -/
def failure? (id : ChannelId) (n : RequestId) (s : Server) : Option (Option Failure) :=
  (s.outcome? id n).map fun
    | .ok _ => none
    | .error f => some f

/-- The first request has its answer. Instead of the second answer there is a crash. -/
theorem Course.readsLines_babble : ∃ steps s t, Course 0 babble steps s t ∧
    failure? 0 1 s = some none ∧ failure? 0 2 s = some (some (.crashed none)) ∧
    s.client.status = .crashed ∧ ReadsLines 0 babble steps s t := by
  have hend : (movedBy 11 ([], babbling, listen 0)).map (fun r =>
      (failure? 0 1 r.2.1, failure? 0 2 r.2.1, r.2.1.client.status)) =
        some (some none, some (some (.crashed none)), .crashed) := by
    decide +kernel
  obtain ⟨⟨steps, s, t⟩, hmoved, hend⟩ := Option.map_eq_some_iff.mp hend
  have hbytes : (babbling.link 0).output = babble := rfl
  have hcourse : Course 0 babble steps s t := (hbytes ▸ Course.start babbling).goesOn hmoved
  simp only [Prod.mk.injEq] at hend
  exact ⟨steps, s, t, hcourse, hend.1, hend.2.1, hend.2.2, hcourse.readsLines⟩

end Noise

end LanguageServer.Server
