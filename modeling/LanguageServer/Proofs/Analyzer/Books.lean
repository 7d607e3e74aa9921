import LanguageServer.Proofs.Analyzer.Fates
import LanguageServer.Proofs.Analyzer.Standing

/-! A channel against the fates of its requests: what waits is pending, and what is settled can be
collected. -/
namespace LanguageServer.Analyzer

variable {n m : RequestId} {o : Except Failure Json} {e : Note} {fates : RequestId → Fate}

namespace Channel

variable {ch : Channel}

/-- A channel keeps its requests by what has become of them. -/
structure Agrees (ch : Channel) (fates : RequestId → Fate) : Prop where
  nodup : ch.pending.Nodup
  pending : ∀ n, n ∈ ch.pending ↔ fates n = .waiting
  outcomes : ∀ n o, ch.outcomes.find? n = some o ↔ fates n = .settled o

theorem mem_pending_settle : m ∈ (ch.settle n o).pending ↔ m ∈ ch.pending ∧ m ≠ n := by
  unfold settle
  split
  · simp [withdraw]
  · next hn =>
    have hn : n ∉ ch.pending := by simpa using hn
    exact ⟨fun hm => ⟨hm, fun h => hn (h ▸ hm)⟩, And.left⟩

theorem find?_outcomes_settle : (ch.settle n o).outcomes.find? m =
    if m = n ∧ n ∈ ch.pending then some o else ch.outcomes.find? m := by
  unfold settle
  by_cases hn : n ∈ ch.pending
  · rw [if_pos (by simpa using hn)]
    dsimp only
    rw [Table.find?_insert]
    by_cases hm : m = n
    · simp [hn, hm]
    · simp [hm, Ne.symm hm]
  · rw [if_neg (by simpa using hn), if_neg fun h => hn h.2]

theorem find?_outcomes_failAll (f : Failure) : (ch.failAll f).outcomes.find? m =
    if m ∈ ch.pending then some (.error f) else ch.outcomes.find? m := by
  have hfold (ns : List RequestId) (t : Table RequestId (Except Failure Json)) :
      (ns.foldl (fun t n => t.insert n (.error f)) t).find? m =
        if m ∈ ns then some (.error f) else t.find? m := by
    induction ns generalizing t with
    | nil => rfl
    | cons n ns ih =>
      rw [List.foldl_cons, ih, Table.find?_insert]
      by_cases hm : m = n
      · simp [hm]
      · simp [hm, Ne.symm hm]
  exact hfold ch.pending ch.outcomes

theorem accept_eq (ch : Channel) (text : String) : ch.accept text =
    match answer? text with
    | some (n, o) => ch.settle n o
    | none => ch := by
  unfold accept answer?
  cases Response.ofLine? (Text.trim text) with
  | none => rfl
  | some r => cases hid : r.id <;> simp [hid]

namespace Agrees

variable (h : ch.Agrees fates)
include h

theorem keep {ch' : Channel} (hpending : ch'.pending = ch.pending)
    (houtcomes : ch'.outcomes = ch.outcomes) : ch'.Agrees fates where
  nodup := hpending ▸ h.nodup
  pending n := hpending ▸ h.pending n
  outcomes n o := houtcomes ▸ h.outcomes n o

theorem same {ch' : Channel} (hpending : ch'.pending = ch.pending)
    (houtcomes : ch'.outcomes = ch.outcomes) (he : ∀ n, e.advance n (fates n) = fates n) :
    ch'.Agrees fun n => e.advance n (fates n) := by
  simp only [he]
  exact h.keep hpending houtcomes

theorem settle (hself : e.outcome? n = some o)
    (hother : ∀ m, m ≠ n → e.advance m (fates m) = fates m) :
    (ch.settle n o).Agrees fun m => e.advance m (fates m) := by
  refine ⟨?_, fun m => ?_, fun m o' => ?_⟩
  · unfold Channel.settle
    split
    · exact h.nodup.filter _
    · exact h.nodup
  · rw [mem_pending_settle, h.pending]
    by_cases hm : m = n
    · subst hm
      by_cases hw : fates m = .waiting
      · simp [hw, Note.advance_waiting hself]
      · simp [hw, Note.advance_of_ne_waiting hself hw]
    · simp [hm, hother m hm]
  · rw [find?_outcomes_settle]
    by_cases hm : m = n
    · subst hm
      by_cases hw : fates m = .waiting
      · simp [h.pending, hw, Note.advance_waiting hself]
      · simp [h.pending, hw, Note.advance_of_ne_waiting hself hw, h.outcomes]
    · simp [hm, hother m hm, h.outcomes]

theorem failAll {f : Failure} (he : ∀ m, e.outcome? m = some (.error f)) :
    (ch.failAll f).Agrees fun m => e.advance m (fates m) := by
  refine ⟨List.nodup_nil, fun m => ?_, fun m o => ?_⟩
  · by_cases hw : fates m = .waiting
    · simp [Channel.failAll, hw, Note.advance_waiting (he m)]
    · simp [Channel.failAll, hw, Note.advance_of_ne_waiting (he m) hw]
  · rw [find?_outcomes_failAll]
    by_cases hw : fates m = .waiting
    · simp [h.pending, hw, Note.advance_waiting (he m)]
    · simp [h.pending, hw, Note.advance_of_ne_waiting (he m) hw, h.outcomes]

/-- The first line with the number of a request that waits settles it, and no other line does
anything. -/
theorem accept (id : ChannelId) (text : String) :
    (ch.accept text).Agrees fun m => (Note.heard id text).advance m (fates m) := by
  rw [accept_eq]
  cases ha : answer? text with
  | none =>
    refine h.same rfl rfl fun m => ?_
    cases hf : fates m <;> simp [Note.advance, Note.outcome?, ha]
  | some a =>
    obtain ⟨n, o⟩ := a
    refine h.settle (by simp [Note.outcome?, ha]) fun m hm => ?_
    cases hf : fates m <;> simp [Note.advance, Note.outcome?, ha, Ne.symm hm]

theorem post (id : ChannelId) (hn : fates n = .unsent) (link : Link) :
    ({ ch with link, pending := ch.pending ++ [n] } : Channel).Agrees
      fun m => (Note.posted id n).advance m (fates m) := by
  have hnew : n ∉ ch.pending := by
    rw [h.pending, hn]
    exact nofun
  have hadvance (m : RequestId) := Note.advance_posted id m hn
  refine ⟨List.nodup_append.mpr ⟨h.nodup, by simp, ?_⟩, fun m => ?_, fun m o => ?_⟩
  · intro a ha b hb
    rw [List.mem_singleton.mp hb]
    exact fun heq => hnew (heq ▸ ha)
  · rw [hadvance]
    by_cases hm : m = n
    · simp [hm]
    · simp [hm, h.pending]
  · rw [hadvance, h.outcomes]
    by_cases hm : m = n
    · simp [hm, hn]
    · simp [hm]

theorem refuse (id : ChannelId) (f : Failure) (unwritten : Bool) (hn : fates n = .unsent) :
    ch.Agrees fun m => (Note.refused id n f unwritten).advance m (fates m) := by
  have hadvance (m : RequestId) := Note.advance_refused id m f unwritten hn
  refine ⟨h.nodup, fun m => ?_, fun m o => ?_⟩
  · rw [hadvance, h.pending]
    by_cases hm : m = n
    · simp [hm, hn]
    · simp [hm]
  · rw [hadvance, h.outcomes]
    by_cases hm : m = n
    · simp [hm, hn]
    · simp [hm]

theorem withdraw (id : ChannelId) (op : Operation) (limit : Duration) (hn : fates n = .waiting) :
    (ch.withdraw n).Agrees fun m => (Note.expired id n op limit).advance m (fates m) := by
  have hadvance (m : RequestId) := Note.advance_expired id m op limit hn
  refine ⟨h.nodup.filter _, fun m => ?_, fun m o => ?_⟩
  · rw [hadvance]
    by_cases hm : m = n
    · simp [Channel.withdraw, hm]
    · simp [Channel.withdraw, hm, h.pending]
  · rw [hadvance]
    by_cases hm : m = n
    · subst hm
      simp [Channel.withdraw, h.outcomes, hn]
    · simp [Channel.withdraw, hm, h.outcomes]

theorem collect (id : ChannelId) (hn : fates n = .settled o) :
    ({ ch with outcomes := ch.outcomes.erase n } : Channel).Agrees
      fun m => (Note.collected id n).advance m (fates m) := by
  have hadvance (m : RequestId) := Note.advance_collected id m hn
  refine ⟨h.nodup, fun m => ?_, fun m o' => ?_⟩
  · rw [hadvance, h.pending]
    by_cases hm : m = n
    · simp [hm, hn]
    · simp [hm]
  · rw [hadvance]
    dsimp only
    rw [Table.find?_erase]
    by_cases hm : m = n
    · simp [hm]
    · simp [hm, Ne.symm hm, h.outcomes]

end Agrees

end Channel

end LanguageServer.Analyzer

/-! A client and what is noted of the steps that are taken on it. Every step that is noted keeps the
client as the notes say. -/
namespace LanguageServer.Analyzer

variable {n : RequestId} {o : Except Failure Json} {e : Note}

namespace Client

variable {c d : Client} {id j : ChannelId} {es : List Note}

structure Calm (c d : Client) : Prop where
  nextRequest : d.nextRequest = c.nextRequest
  channel : ∀ id, (c.channel id).Calm (d.channel id)

theorem Calm.refl (c : Client) : c.Calm c := ⟨rfl, fun _ => .refl _⟩

theorem calm_of_channels (hnext : d.nextRequest = c.nextRequest) (h : d.channels = c.channels) :
    c.Calm d := by
  refine ⟨hnext, fun id => ?_⟩
  rw [channel, channel, h]
  exact .refl _

theorem calm_insert {ch : Channel} (h : (c.channel id).Calm ch) :
    c.Calm { c with channels := c.channels.insert id ch } := by
  refine ⟨rfl, fun j => ?_⟩
  rw [channel_insert]
  split
  · next hj => exact eq_of_beq hj ▸ h
  · exact .refl _

theorem channel_freshId (c : Client) : c.channel c.freshId = default := by
  have hnone : c.channels.find? c.freshId = none := by
    refine Table.find?_eq_none_iff.mpr fun p hp => ?_
    rw [beq_eq_false_iff_ne]
    exact Nat.ne_of_lt (lt_freshId (List.mem_map_of_mem hp))
  rw [channel, hnone]
  rfl

theorem calm_connect (c : Client) (pid : Option UInt32) (hasChild : Bool) :
    c.Calm (c.connect (.connect .fresh pid hasChild)).2 := by
  have hnew : (c.channel c.freshId).Calm (.connect .fresh pid hasChild) := by
    rw [channel_freshId]
    exact ⟨rfl, rfl, rfl, rfl, rfl⟩
  exact ⟨rfl, (calm_insert hnew).channel⟩

/-- One channel is put in the place of another, and nothing else happens to channels. -/
structure Amends (c : Client) (id : ChannelId) (ch : Channel) (d : Client) : Prop where
  self : d.channel id = ch
  other : ∀ j, j ≠ id → d.channel j = c.channel j

theorem amends_updateChannel (c : Client) (id : ChannelId) (f : Channel → Channel) :
    c.Amends id (f (c.channel id)) (c.updateChannel id f) := by
  refine ⟨?_, fun j hj => ?_⟩
  · rw [channel_updateChannel, beq_self_eq_true, if_pos rfl]
  · rw [channel_updateChannel, beq_eq_false_iff_ne.mpr hj.symm]
    rfl

theorem Amends.updateChannel {ch : Channel} (h : c.Amends id ch d) (f : Channel → Channel) :
    c.Amends id (f ch) (d.updateChannel id f) := by
  have hf := d.amends_updateChannel id f
  rw [h.self] at hf
  exact ⟨hf.self, fun j hj => (hf.other j hj).trans (h.other j hj)⟩

theorem amends_disconnect (c : Client) (id : ChannelId) (code : Option Int) :
    c.Amends id ((c.channel id).failAll (.crashed code)) (c.disconnect id code) := by
  have h := c.amends_updateChannel id (·.failAll (.crashed code))
  have hchannel (j : ChannelId) : (c.disconnect id code).channel j =
      (c.updateChannel id (·.failAll (.crashed code))).channel j := by
    unfold disconnect
    by_cases hid : c.active = some id <;> simp [hid, emit, Client.updateChannel, channel]
  exact ⟨(hchannel id).trans h.self, fun j hj => (hchannel j).trans (h.other j hj)⟩

theorem nextRequest_disconnect (c : Client) (id : ChannelId) (code : Option Int) :
    (c.disconnect id code).nextRequest = c.nextRequest := by
  unfold disconnect
  by_cases h : c.active = some id <;> simp [h, emit, updateChannel]

theorem reader_disconnect (c : Client) (id : ChannelId) (code : Option Int) :
    (c.disconnect id code).reader = c.reader := by
  unfold disconnect
  by_cases h : c.active = some id <;> simp [h, emit, updateChannel]

/-- Reads the next line of the process of a channel. -/
def hear (id : ChannelId) (c : Client) : Option (Link.Heard × Client) :=
  c.fromChannel id fun ch => ch.link.listen.map fun (heard, link) => (heard, { ch with link })

/-- One step does to a client what is noted of it. -/
inductive Explains (c : Client) : Note → Client → Prop
  | posted {id : ChannelId} {n : RequestId} {op : Operation} {params : Json} {d : Client} :
    c.post id op params = (.ok n, d) → Explains c (.posted id n) d
  | refused {id : ChannelId} {f : Failure} {op : Operation} {params : Json} {d : Client} :
    c.post id op params = (.error f, d) →
    Explains c (.refused id c.nextRequest f !(c.channel id).isDead) d
  | ended {id : ChannelId} {d : Client} : c.hear id = some (.ended, d) → Explains c (.ended id) d
  | replaced {id : ChannelId} : Explains c (.replaced id) (c.abandon id)
  | closed {id : ChannelId} :
    Explains c (.closed id) ((c.abandon id).updateChannel id (·.failAll .terminated))
  | lost {id : ChannelId} : (c.channel id).isClosing = true →
    Explains c (.lost id) (c.updateChannel id (·.failAll .terminated))
  | crashed {id : ChannelId} {code : Option Int} :
    Explains c (.crashed id code) (c.disconnect id code)
  | expired {id : ChannelId} {n : RequestId} {op : Operation} {limit : Duration} :
    Explains c (.expired id n op limit) (c.updateChannel id (·.withdraw n))
  | collected {id : ChannelId} {n : RequestId} {o : Except Failure Json} {d : Client} :
    c.fromChannel id (·.collect n) = some (o, d) → Explains c (.collected id n) d

/-- Notes on a course of steps, each the client before and after. The steps of which there is no note
are calm, and who reads a line takes it in at once. -/
inductive Explained : List Note → List (Client × Client) → Prop
  | nil : Explained [] []
  | calm {es : List Note} {steps : List (Client × Client)} {c d : Client} : Explained es steps →
    c.Calm d → Explained es ((c, d) :: steps)
  | note {es : List Note} {steps : List (Client × Client)} {e : Note} {c d : Client} :
    Explained es steps → c.Explains e d → Explained (e :: es) ((c, d) :: steps)
  | heard {es : List Note} {steps : List (Client × Client)} {id : ChannelId} {text : String}
      {c d : Client} : Explained es steps → c.hear id = some (.line text, d) →
    Explained (.heard id text :: es) ((d, d.updateChannel id (·.accept text)) :: (c, d) :: steps)

/-- A client is as the notes say. -/
structure Books (es : List Note) (c : Client) : Prop where
  agrees : ∀ id, (c.channel id).Agrees (fate es id)
  closing : ∀ id, (c.channel id).isClosing = true → IsGivenUp es id
  dead : ∀ id, (c.channel id).isDead = true → (c.channel id).isClosing = true ∨ .ended id ∈ es
  nextRequest : c.nextRequest = number es

theorem post_ok {op : Operation} {params : Json} (h : c.post id op params = (.ok n, d)) :
    n = c.nextRequest ∧ ∃ link, d = ({ c with nextRequest := c.nextRequest + 1 } : Client).updateChannel
      id fun ch => { ch with link, pending := ch.pending ++ [n] } := by
  simp only [post] at h
  split at h
  · cases h
  · split at h
    · cases h
    · next link _ =>
      cases h
      exact ⟨rfl, link, rfl⟩

theorem post_error {f : Failure} {op : Operation} {params : Json}
    (h : c.post id op params = (.error f, d)) :
    d = { c with nextRequest := c.nextRequest + 1 } ∧ f = c.loss id := by
  simp only [post] at h
  split at h
  · cases h
    exact ⟨rfl, rfl⟩
  · split at h
    · cases h
      exact ⟨rfl, rfl⟩
    · cases h

theorem hear_eq_some {heard : Link.Heard} (h : c.hear id = some (heard, d)) :
    ∃ link, d = c.updateChannel id fun ch => { ch with link } := by
  obtain ⟨⟨a, ch⟩, hch, heq⟩ := Option.map_eq_some_iff.mp h
  cases heq
  obtain ⟨⟨a, link⟩, -, heq⟩ := Option.map_eq_some_iff.mp hch
  cases heq
  exact ⟨link, rfl⟩

theorem collect_eq_some (h : c.fromChannel id (·.collect n) = some (o, d)) :
    (c.channel id).outcomes.find? n = some o ∧
      d = c.updateChannel id fun ch => { ch with outcomes := ch.outcomes.erase n } := by
  obtain ⟨⟨a, ch⟩, hch, heq⟩ := Option.map_eq_some_iff.mp h
  cases heq
  obtain ⟨o, ho, heq⟩ := Option.map_eq_some_iff.mp hch
  cases heq
  exact ⟨ho, rfl⟩

theorem Explains.nextRequest (h : c.Explains e d) :
    d.nextRequest = if e.number?.isSome then c.nextRequest + 1 else c.nextRequest := by
  cases h with
  | posted h =>
    obtain ⟨-, link, rfl⟩ := post_ok h
    rfl
  | refused h =>
    obtain ⟨rfl, -⟩ := post_error h
    rfl
  | ended h =>
    obtain ⟨link, rfl⟩ := hear_eq_some h
    rfl
  | crashed => exact nextRequest_disconnect _ _ _
  | collected h =>
    obtain ⟨-, rfl⟩ := collect_eq_some h
    rfl
  | _ => rfl

/-- How many requests are made in a course of steps. -/
def requests (steps : List (Client × Client)) : Nat :=
  steps.countP fun step => step.2.nextRequest ≠ step.1.nextRequest

theorem loss_cases (c : Client) (id : ChannelId) :
    (c.channel id).isClosing = true ∧ c.loss id = .terminated ∨
      (c.channel id).isClosing = false ∧ ∃ code, c.loss id = .crashed code := by
  unfold loss
  cases (c.channel id).isClosing with
  | true => exact .inl ⟨rfl, rfl⟩
  | false =>
    refine .inr ⟨rfl, ?_⟩
    cases c.phase with
    | crashed code => exact ⟨code, rfl⟩
    | _ => exact ⟨none, rfl⟩

namespace Books

/-- A step fits what was noted before it, if lines have ended before a crash and only a request that
waits expires. -/
theorem fits (hb : Books es c) (hx : c.Explains e d)
    (hended : ∀ id code, e = .crashed id code → .ended id ∈ es)
    (hwaiting : ∀ id n op limit, e = .expired id n op limit → fate es id n = .waiting) : e.Fits es := by
  cases hx with
  | posted h =>
    obtain ⟨rfl, -⟩ := post_ok h
    exact hb.nextRequest
  | @refused id f op params d h =>
    obtain ⟨-, rfl⟩ := post_error h
    refine ⟨hb.nextRequest, ?_⟩
    obtain ⟨hclosing, hloss⟩ | ⟨hclosing, code, hloss⟩ := c.loss_cases id
    · exact .inl ⟨hloss, hb.closing id hclosing⟩
    · refine .inr ⟨code, hloss, ?_⟩
      cases hdead : (c.channel id).isDead with
      | false => exact .inr rfl
      | true => exact .inl ((hb.dead id hdead).resolve_left (by simp [hclosing]))
  | lost hclosing => exact hb.closing _ hclosing
  | crashed => exact hended _ _ rfl
  | expired => exact hwaiting _ _ _ _ rfl
  | @collected id n o d h =>
    obtain ⟨hfound, -⟩ := collect_eq_some h
    exact ⟨o, ((hb.agrees id).outcomes n o).mp hfound⟩
  | _ => trivial

theorem calm (hb : Books es c) (h : c.Calm d) : Books es d where
  agrees id := (hb.agrees id).keep (h.channel id).pending (h.channel id).outcomes
  closing id hclosing := hb.closing id ((h.channel id).isClosing ▸ hclosing)
  dead id hdead := by
    rw [(h.channel id).isClosing]
    exact hb.dead id ((h.channel id).isDead ▸ hdead)
  nextRequest := h.nextRequest.trans hb.nextRequest

theorem relinked (hb : Books es c) (hnext : d.nextRequest = c.nextRequest)
    (h : ∀ id, ∃ link, d.channel id = { c.channel id with link }) : Books es d := by
  refine ⟨fun id => ?_, fun id => ?_, fun id => ?_, hnext.trans hb.nextRequest⟩
  · obtain ⟨link, hlink⟩ := h id
    exact hlink ▸ (hb.agrees id).keep rfl rfl
  · obtain ⟨link, hlink⟩ := h id
    exact hlink ▸ hb.closing id
  · obtain ⟨link, hlink⟩ := h id
    exact hlink ▸ hb.dead id

/-- Only the channel that a note is about is different. -/
theorem amend {ch : Channel} (hb : Books es c) (h : c.Amends e.channel ch d)
    (hagrees : ch.Agrees fun n => e.advance n (fate es e.channel n))
    (hclosing : ch.isClosing = true → IsGivenUp (e :: es) e.channel)
    (hdead : ch.isDead = true → ch.isClosing = true ∨ .ended e.channel ∈ e :: es)
    (hnext : d.nextRequest = number (e :: es)) : Books (e :: es) d := by
  have hgrows : es <:+ e :: es := List.suffix_cons e es
  refine ⟨fun j => ?_, fun j hj => ?_, fun j hj => ?_, hnext⟩
  · by_cases hid : j = e.channel
    · rw [hid, h.self, (funext fun _ => fate_cons_self : fate (e :: es) e.channel = _)]
      exact hagrees
    · rw [h.other j hid, (funext fun _ => fate_cons_of_ne (Ne.symm hid) : fate (e :: es) j = _)]
      exact hb.agrees j
  · by_cases hid : j = e.channel
    · rw [hid, h.self] at hj
      exact hid ▸ hclosing hj
    · rw [h.other j hid] at hj
      exact (hb.closing j hj).of_suffix hgrows
  · by_cases hid : j = e.channel
    · rw [hid, h.self] at hj ⊢
      exact hdead hj
    · rw [h.other j hid] at hj ⊢
      exact (hb.dead j hj).imp_right (hgrows.subset ·)

theorem amend_same {ch : Channel} (hb : Books es c) (h : c.Amends e.channel ch d)
    (hagrees : ch.Agrees fun n => e.advance n (fate es e.channel n))
    (hclosing : ch.isClosing = (c.channel e.channel).isClosing)
    (hdead : ch.isDead = (c.channel e.channel).isDead)
    (hnext : d.nextRequest = number (e :: es)) : Books (e :: es) d := by
  have hgrows : es <:+ e :: es := List.suffix_cons e es
  refine hb.amend h hagrees (fun hc => ?_) (fun hd => ?_) hnext
  · exact (hb.closing _ (hclosing ▸ hc)).of_suffix hgrows
  · rw [hclosing]
    exact (hb.dead _ (hdead ▸ hd)).imp_right (hgrows.subset ·)

/-- What is noted of a step keeps the books, if it fits what was noted before and numbers last. -/
theorem explained (hb : Books es c) (hx : c.Explains e d) (hes : Faithful es) (hfits : e.Fits es)
    (hsends : sends (e :: es) ≤ UInt64.size) : Books (e :: es) d := by
  have hsame (he : e.number? = none) : c.nextRequest = number (e :: es) := by
    rw [number_cons_of_none he, hb.nextRequest]
  have hnext {n : RequestId} (he : e.number? = some n) : c.nextRequest + 1 = number (e :: es) := by
    rw [number_cons_of_number he, hb.nextRequest]
  -- a number that is given out now was never sent on any channel
  have hnew {n : RequestId} (he : e.number? = some n) (id : ChannelId) :
      fate es id c.nextRequest = .unsent := by
    rw [hb.nextRequest, ← hfits.number_eq he]
    exact hes.unsent hfits he hsends
  cases hx with
  | @posted id n op params d h =>
    obtain ⟨rfl, link, rfl⟩ := post_ok h
    have hamends := amends_updateChannel { c with nextRequest := c.nextRequest + 1 } id
      fun ch => { ch with link, pending := ch.pending ++ [c.nextRequest] }
    exact hb.amend_same ⟨hamends.self, hamends.other⟩ ((hb.agrees id).post id (hnew rfl id) link) rfl rfl
      (hnext rfl)
  | @refused id f op params d h =>
    obtain ⟨rfl, -⟩ := post_error h
    exact hb.amend_same ⟨rfl, fun _ _ => rfl⟩ ((hb.agrees id).refuse id f _ (hnew rfl id)) rfl rfl
      (hnext rfl)
  | @ended id d h =>
    obtain ⟨link, rfl⟩ := hear_eq_some h
    refine hb.amend_same (c.amends_updateChannel id _) ((hb.agrees id).same rfl rfl fun n => ?_) rfl rfl
      (hsame rfl)
    cases fate es id n <;> rfl
  | @replaced id =>
    refine hb.amend (c.amends_updateChannel id _) ((hb.agrees id).same rfl rfl fun n => ?_)
      (fun _ => .inr List.mem_cons_self) (fun _ => .inl rfl) (hsame rfl)
    cases fate es id n <;> rfl
  | @closed id =>
    have hclosing : ({ c.channel id with isClosing := true } : Channel).Agrees (fate es id) :=
      (hb.agrees id).keep rfl rfl
    exact hb.amend ((c.amends_updateChannel id _).updateChannel _) (hclosing.failAll fun _ => rfl)
      (fun _ => .inl List.mem_cons_self) (fun _ => .inl rfl) (hsame rfl)
  | @lost id hclosing =>
    exact hb.amend (c.amends_updateChannel id _) ((hb.agrees id).failAll fun _ => rfl)
      (fun hc => (hb.closing id hc).of_suffix (List.suffix_cons _ _)) (fun _ => .inl hclosing) (hsame rfl)
  | @crashed id code =>
    have hended : .ended id ∈ .crashed id code :: es := List.mem_cons_of_mem _ hfits
    exact hb.amend (c.amends_disconnect id code) ((hb.agrees id).failAll fun _ => rfl)
      (fun hc => (hb.closing id hc).of_suffix (List.suffix_cons _ _)) (fun _ => .inr hended)
      ((c.nextRequest_disconnect id code).trans (hsame rfl))
  | @expired id n op limit =>
    exact hb.amend_same (c.amends_updateChannel id _) ((hb.agrees id).withdraw id op limit hfits) rfl rfl
      (hsame rfl)
  | @collected id n o d h =>
    obtain ⟨hfound, rfl⟩ := collect_eq_some h
    have hsettled := ((hb.agrees id).outcomes n o).mp hfound
    exact hb.amend_same (c.amends_updateChannel id _) ((hb.agrees id).collect id hsettled) rfl rfl
      (hsame rfl)

theorem heard {text : String} (hb : Books es c) (h : c.hear id = some (.line text, d)) :
    Books (.heard id text :: es) (d.updateChannel id (·.accept text)) := by
  obtain ⟨link, rfl⟩ := hear_eq_some h
  have hread : ({ c.channel id with link } : Channel).Agrees (fate es id) := (hb.agrees id).keep rfl rfl
  have hflags := Channel.flags_accept { c.channel id with link } text
  exact hb.amend_same ((c.amends_updateChannel id _).updateChannel _) (hread.accept id text) hflags.1
    hflags.2 ((number_cons_of_none rfl).trans hb.nextRequest.symm).symm

end Books
end Client
end LanguageServer.Analyzer
