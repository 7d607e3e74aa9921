import LanguageServer.Analyzer.Client
import Mathlib.Tactic.ByContra

/-! What becomes of a request, told from what was done to its channel: it is sent, it waits, one thing
settles it, and its caller is told the outcome. -/
namespace LanguageServer.Analyzer

/-- What is done to the requests of a channel. -/
inductive Note where
  | posted (id : ChannelId) (n : RequestId)
  /-- A request is refused: the channel takes none or, if `unwritten`, its process does not read. -/
  | refused (id : ChannelId) (n : RequestId) (f : Failure) (unwritten : Bool)
  | heard (id : ChannelId) (text : String)
  /-- No more lines can be read. -/
  | ended (id : ChannelId)
  /-- A later start takes the place of the channel. -/
  | replaced (id : ChannelId)
  /-- A stop or a start that failed closes the channel. -/
  | closed (id : ChannelId)
  /-- The reader of a channel that was given up has come to the end. -/
  | lost (id : ChannelId)
  | crashed (id : ChannelId) (code : Option Int)
  | expired (id : ChannelId) (n : RequestId) (op : Operation) (limit : Duration)
  | collected (id : ChannelId) (n : RequestId)

/-- What has become of a request. Once settled, its outcome is there for the caller to take. -/
inductive Fate where
  | unsent
  | waiting
  | settled (o : Except Failure Json)
  | done (o : Except Failure Json)

def Fate.outcome? : Fate → Option (Except Failure Json)
  | .settled o => some o
  | .done o => some o
  | _ => none

/-- The request that a line answers, and how. -/
def answer? (text : String) : Option (RequestId × Except Failure Json) :=
  (Response.ofLine? (Text.trim text)).bind fun r => r.id.map fun n => (n, r.outcome)

namespace Note

def channel : Note → ChannelId
  | posted id _ => id
  | refused id _ _ _ => id
  | heard id _ => id
  | ended id => id
  | replaced id => id
  | closed id => id
  | lost id => id
  | crashed id _ => id
  | expired id _ _ _ => id
  | collected id _ => id

def number? : Note → Option RequestId
  | posted _ n => some n
  | refused _ n _ _ => some n
  | _ => none

/-- The outcome for a request with the number `n` that waits on the channel. -/
def outcome? (n : RequestId) : Note → Option (Except Failure Json)
  | heard _ text => (answer? text).bind fun a => if a.1 = n then some a.2 else none
  | closed _ => some (.error .terminated)
  | lost _ => some (.error .terminated)
  | crashed _ code => some (.error (.crashed code))
  | _ => none

/-- What becomes of a request with the number `n` of the channel. -/
def advance (n : RequestId) (e : Note) : Fate → Fate
  | .unsent => match e with
    | posted _ m => if m = n then .waiting else .unsent
    | refused _ m f _ => if m = n then .done (.error f) else .unsent
    | _ => .unsent
  | .waiting => match e with
    | expired _ m op limit => if m = n then .done (.error (.timedOut op.method limit)) else .waiting
    | e => ((e.outcome? n).map .settled).getD .waiting
  | .settled o => match e with
    | collected _ m => if m = n then .done o else .settled o
    | _ => .settled o
  | .done o => .done o

/-- The ways in which a request moves on. -/
inductive Moves (n : RequestId) : Note → Fate → Fate → Prop
  | posted {id : ChannelId} : Moves n (posted id n) .unsent .waiting
  | refused {id : ChannelId} {f : Failure} {unwritten : Bool} :
    Moves n (refused id n f unwritten) .unsent (.done (.error f))
  | outcome {e : Note} {o : Except Failure Json} : e.outcome? n = some o →
    Moves n e .waiting (.settled o)
  | expired {id : ChannelId} {op : Operation} {limit : Duration} :
    Moves n (expired id n op limit) .waiting (.done (.error (.timedOut op.method limit)))
  | collected {id : ChannelId} {o : Except Failure Json} :
    Moves n (collected id n) (.settled o) (.done o)

end Note

/-- What has become of a request, by all that was done so far, the latest first. -/
def fate : List Note → ChannelId → RequestId → Fate
  | [], _, _ => .unsent
  | e :: es, id, n => if e.channel = id then e.advance n (fate es id n) else fate es id n

def sends (es : List Note) : Nat := es.countP (·.number?.isSome)

def number (es : List Note) : RequestId := UInt64.ofNat (sends es + 1)

def IsGivenUp (es : List Note) (id : ChannelId) : Prop := .closed id ∈ es ∨ .replaced id ∈ es

/-- Whether something can have been done after `es`. -/
def Note.Fits (es : List Note) : Note → Prop
  | .posted _ n => n = number es
  | .refused id n f unwritten => n = number es ∧ (f = .terminated ∧ IsGivenUp es id ∨
      ∃ code, f = .crashed code ∧ (.ended id ∈ es ∨ unwritten = true))
  | .lost id => IsGivenUp es id
  | .crashed id _ => .ended id ∈ es
  | .expired id n _ _ => fate es id n = .waiting
  | .collected id n => ∃ o, fate es id n = .settled o
  | _ => True

inductive Faithful : List Note → Prop
  | nil : Faithful []
  | cons {e : Note} {es : List Note} : Faithful es → e.Fits es → Faithful (e :: es)

/-- What a request with an outcome owes it to. Answers, and refusals by the process itself, come from
the first line with the number of the request alone. -/
def Account (es : List Note) (id : ChannelId) (n : RequestId) : Except Failure Json → Prop
  | .error .terminated => IsGivenUp es id
  | .error (.crashed code) => .ended id ∈ es ∨ .refused id n (.crashed code) true ∈ es
  | .error (.timedOut method limit) => ∃ op, op.method = method ∧ .expired id n op limit ∈ es
  | o => ∃ text earlier, .heard id text :: earlier <:+ es ∧ fate earlier id n = .waiting ∧
      answer? text = some (n, o)

variable {e : Note} {es earlier : List Note} {id : ChannelId} {n : RequestId}
  {o : Except Failure Json}

theorem Note.advance_eq_or_moves (n : RequestId) (e : Note) (f : Fate) :
    e.advance n f = f ∨ e.Moves n f (e.advance n f) := by
  cases f with
  | unsent =>
    cases e with
    | posted id m =>
      by_cases hm : m = n
      · subst hm
        simpa [advance] using Moves.posted
      · simp [advance, hm]
    | refused id m f unwritten =>
      by_cases hm : m = n
      · subst hm
        simpa [advance] using Moves.refused
      · simp [advance, hm]
    | _ => exact .inl rfl
  | waiting =>
    have houtcome (h : e.advance n .waiting = ((e.outcome? n).map .settled).getD .waiting) :
        e.advance n .waiting = .waiting ∨ e.Moves n .waiting (e.advance n .waiting) := by
      rw [h]
      cases ho : e.outcome? n with
      | none => exact .inl rfl
      | some o => exact .inr (.outcome ho)
    cases e with
    | expired id m op limit =>
      by_cases hm : m = n
      · subst hm
        simpa [advance] using Moves.expired
      · simp [advance, hm]
    | _ => exact houtcome rfl
  | settled o =>
    cases e with
    | collected id m =>
      by_cases hm : m = n
      · subst hm
        simpa [advance] using Moves.collected
      · simp [advance, hm]
    | _ => exact .inl rfl
  | done o => exact .inl rfl

theorem Note.advance_waiting (ho : e.outcome? n = some o) : e.advance n .waiting = .settled o := by
  cases e with
  | expired id m op limit => cases ho
  | _ => simp [advance, ho]

theorem Note.advance_of_ne_waiting {f : Fate} (ho : e.outcome? n = some o) (hf : f ≠ .waiting) :
    e.advance n f = f := by
  cases f with
  | unsent => cases e <;> first | rfl | cases ho
  | waiting => exact absurd rfl hf
  | settled o' => cases e <;> first | rfl | cases ho
  | done o' => rfl

section Update

variable {fates : RequestId → Fate} (id : ChannelId) (m : RequestId)

theorem Note.advance_posted (hn : fates n = .unsent) :
    (posted id n).advance m (fates m) = if m = n then .waiting else fates m := by
  by_cases hm : m = n
  · simp [hm, hn, advance]
  · cases fates m <;> simp [advance, outcome?, hm, Ne.symm hm]

theorem Note.advance_refused (f : Failure) (unwritten : Bool) (hn : fates n = .unsent) :
    (refused id n f unwritten).advance m (fates m) = if m = n then .done (.error f) else fates m := by
  by_cases hm : m = n
  · simp [hm, hn, advance]
  · cases fates m <;> simp [advance, outcome?, hm, Ne.symm hm]

theorem Note.advance_expired (op : Operation) (limit : Duration) (hn : fates n = .waiting) :
    (expired id n op limit).advance m (fates m) =
      if m = n then .done (.error (.timedOut op.method limit)) else fates m := by
  by_cases hm : m = n
  · simp [hm, hn, advance]
  · cases fates m <;> simp [advance, hm, Ne.symm hm]

theorem Note.advance_collected (hn : fates n = .settled o) :
    (collected id n).advance m (fates m) = if m = n then .done o else fates m := by
  by_cases hm : m = n
  · simp [hm, hn, advance]
  · cases fates m <;> simp [advance, outcome?, hm, Ne.symm hm]

end Update

theorem fate_cons_of_ne (h : e.channel ≠ id) : fate (e :: es) id n = fate es id n := if_neg h

theorem fate_cons_self : fate (e :: es) e.channel n = e.advance n (fate es e.channel n) := if_pos rfl

theorem fate_cons (e : Note) (es : List Note) (id : ChannelId) (n : RequestId) :
    fate (e :: es) id n = fate es id n ∨
      e.channel = id ∧ e.Moves n (fate es id n) (fate (e :: es) id n) := by
  by_cases hid : e.channel = id
  · subst hid
    rw [fate_cons_self]
    exact (e.advance_eq_or_moves n _).imp_right (⟨rfl, ·⟩)
  · exact .inl (fate_cons_of_ne hid)

theorem sends_le_cons : sends es ≤ sends (e :: es) := by
  rw [sends, sends, List.countP_cons]
  omega

theorem sends_cons_of_number (h : e.number? = some n) : sends (e :: es) = sends es + 1 := by
  rw [sends, sends, List.countP_cons, h]
  rfl

theorem sends_cons_of_none (h : e.number? = none) : sends (e :: es) = sends es := by
  rw [sends, sends, List.countP_cons, h]
  rfl

theorem number_cons_of_number (h : e.number? = some n) : number (e :: es) = number es + 1 := by
  rw [number, number, sends_cons_of_number h, UInt64.ofNat_add]
  rfl

theorem number_cons_of_none (h : e.number? = none) : number (e :: es) = number es := by
  rw [number, number, sends_cons_of_none h]

theorem Note.Fits.number_eq (h : e.Fits es) (hn : e.number? = some n) : n = number es := by
  cases e with
  | posted id m => exact Option.some.inj hn ▸ h
  | refused id m f unwritten => exact Option.some.inj hn ▸ h.1
  | _ => cases hn

theorem Faithful.sent (h : Faithful es) (hsent : fate es id n ≠ .unsent) :
    ∃ k < sends es, n = UInt64.ofNat (k + 1) := by
  induction h with
  | nil => exact absurd rfl hsent
  | @cons e es _ hfits ih =>
    have hnew (hn : e.number? = some n) : ∃ k < sends (e :: es), n = UInt64.ofNat (k + 1) :=
      ⟨sends es, by rw [sends_cons_of_number hn]; omega, hfits.number_eq hn⟩
    have hold (hne : fate es id n ≠ .unsent) : ∃ k < sends (e :: es), n = UInt64.ofNat (k + 1) := by
      obtain ⟨k, hk, hn⟩ := ih hne
      have hgrows : sends es ≤ sends (e :: es) := sends_le_cons
      exact ⟨k, by omega, hn⟩
    obtain hsame | ⟨-, hmoves⟩ := fate_cons e es id n
    · exact hold (hsame ▸ hsent)
    · generalize fate (e :: es) id n = g at hmoves
      generalize fate es id n = f at hmoves hold
      cases hmoves with
      | posted => exact hnew rfl
      | refused => exact hnew rfl
      | _ => exact hold nofun

/-- Until all numbers have been given out, the next one is new. -/
theorem Faithful.fresh (h : Faithful es) (hsends : sends es < UInt64.size) :
    fate es id (number es) = .unsent := by
  by_contra hsent
  obtain ⟨k, hk, hn⟩ := h.sent hsent
  have htoNat := congrArg UInt64.toNat hn
  simp only [number, UInt64.toNat_ofNat'] at htoNat
  rw [UInt64.size] at hsends
  omega

theorem Faithful.unsent (h : Faithful es) (hfits : e.Fits es) (hn : e.number? = some n)
    (hsends : sends (e :: es) ≤ UInt64.size) : fate es id n = .unsent := by
  rw [sends_cons_of_number hn] at hsends
  rw [hfits.number_eq hn]
  exact h.fresh hsends

/-- A line answers the request whose number it carries, and an error counts before a result. -/
theorem answer?_eq_some_iff {text : String} : answer? text = some (n, o) ↔
    ∃ r, Response.ofLine? (Text.trim text) = some r ∧ r.id = some n ∧
      ((∃ e, r.error = some e ∧ o = .error (.rejected e.code e.message)) ∨
        r.error = none ∧ o = .ok (r.result.getD .null)) := by
  unfold answer?
  rw [Option.bind_eq_some_iff]
  refine exists_congr fun r => and_congr_right fun _ => ?_
  obtain ⟨id, result, error, message⟩ := r
  cases id <;> cases error <;> simp [Response.outcome, eq_comm]

theorem outcome_of_answer {text : String} (h : answer? text = some (n, o)) :
    (∃ v, o = .ok v) ∨ ∃ code message, o = .error (.rejected code message) := by
  obtain ⟨r, -, -, ⟨e, -, ho⟩ | ⟨-, ho⟩⟩ := answer?_eq_some_iff.mp h
  · exact .inr ⟨_, _, ho⟩
  · exact .inl ⟨_, ho⟩

theorem Note.outcome?_ne_timedOut {method : String} {limit : Duration} :
    e.outcome? n ≠ some (.error (.timedOut method limit)) := by
  intro h
  cases e with
  | heard id text =>
    obtain ⟨⟨m, o⟩, ha, hm⟩ := Option.bind_eq_some_iff.mp h
    obtain ⟨-, heq⟩ := Option.ite_none_right_eq_some.mp hm
    obtain ⟨v, rfl⟩ | ⟨code, message, rfl⟩ := outcome_of_answer ha <;> cases heq
  | _ => cases h

theorem fate_ne_settled_timedOut {method : String} {limit : Duration} :
    fate es id n ≠ .settled (.error (.timedOut method limit)) := by
  intro h
  induction es with
  | nil => cases h
  | cons e es ih =>
    obtain hsame | ⟨-, hmoves⟩ := fate_cons e es id n
    · exact ih (hsame ▸ h)
    · rw [h] at hmoves
      generalize fate es id n = f at hmoves
      cases hmoves with
      | outcome ho => exact e.outcome?_ne_timedOut ho

theorem IsGivenUp.of_suffix (h : IsGivenUp earlier id) (hes : earlier <:+ es) : IsGivenUp es id :=
  h.imp (hes.subset ·) (hes.subset ·)

theorem Account.of_suffix (h : Account earlier id n o) (hes : earlier <:+ es) : Account es id n o := by
  unfold Account at h ⊢
  split at h
  · exact h.of_suffix hes
  · exact h.imp (hes.subset ·) (hes.subset ·)
  · obtain ⟨op, hop, hexpired⟩ := h
    exact ⟨op, hop, hes.subset hexpired⟩
  · obtain ⟨text, first, hfirst, hrest⟩ := h
    exact ⟨text, first, hfirst.trans hes, hrest⟩

/-- What ends the wait for an answer. -/
def Note.Ends (id : ChannelId) (n : RequestId) (e : Note) : Prop :=
  e.channel = id ∧ (e.outcome? n ≠ none ∨ ∃ op limit, e = .expired id n op limit)

theorem Faithful.of_suffix (h : Faithful es) (hes : earlier <:+ es) : Faithful earlier := by
  induction h with
  | nil => exact List.suffix_nil.mp hes ▸ .nil
  | @cons e es hes' hfits ih =>
    obtain rfl | hes := List.suffix_cons_iff.mp hes
    · exact .cons hes' hfits
    · exact ih hes

end LanguageServer.Analyzer
