import LanguageServer.Proofs.Analyzer.Books
import LanguageServer.Proofs.Task.Joint

/-! A server together with a record of every step that tasks take on its client, and of what the callers
of requests are told. Under one pact each open request is the business of one task. -/
namespace LanguageServer.Server.Correlation

open Analyzer

/-- What the caller of a request was told, and when. -/
structure Reply where
  channel : ChannelId
  number : RequestId
  op : Operation
  limit : Duration
  start : Instant
  finish : Instant
  outcome : Except Failure Json

/-- If a request has timed out, it has done so by its own limit. -/
def Timely (op : Operation) (limit : Duration) (start finish : Instant)
    (o : Except Failure Json) : Prop := ∀ method span, o = .error (.timedOut method span) →
  method = op.method ∧ span = limit ∧ start.after limit ≤ finish

/-- A server with the steps taken on its client, each the client before and after, and the replies. -/
structure Recorded where
  server : Server
  steps : List (Client × Client)
  replies : List Reply

/-- The server as a part of its record: whatever changes it takes a step. -/
def recorder : Lens Recorded Server where
  get r := r.server
  set s r := { r with server := s, steps := (r.server.client, s.client) :: r.steps }

/-- A request whose reply is recorded. -/
def ask (op : Operation) (params : Json) (limit : Duration) :
    Task Recorded (Except Failure Json) := do
  let start ← Task.now
  match ← Task.read (·.server.client.target) with
  | .error f => return .error f
  | .ok id =>
    let n ← Task.read (·.server.client.nextRequest)
    let outcome ← (send id op params limit).zoom recorder
    let finish ← Task.now
    Task.modify fun r => { r with replies := ⟨id, n, op, limit, start, finish, outcome⟩ :: r.replies }
    return outcome

/-- The part that a task plays: who has sent a request asks until it has the outcome. -/
inductive Part where
  | unborn
  | gone
  | guest
  | reader
  | asking (id : ChannelId) (n : RequestId)

def Part.isReader : Part → Bool
  | .reader => true
  | _ => false

structure Log where
  notes : List Note
  now : Instant

def Log.note (g : Log) (e : Note) : Log := { g with notes := e :: g.notes }

/-- The request was sent and its caller was not told the outcome. -/
def IsOpen (f : Fate) : Prop := f = .waiting ∨ ∃ o, f = .settled o

/-- While numbers last, the notes are in order, they agree with the client, each open request is the
business of one task, and what callers were told is what became of their requests. -/
structure Kept (es : List Note) (role : TaskId → Part) (r : Recorded) : Prop where
  faithful : Faithful es
  books : r.server.client.Books es
  asking : ∀ id n, IsOpen (fate es id n) ↔ ∃ i, role i = .asking id n
  single : ∀ i j id n, role i = .asking id n → role j = .asking id n → i = j
  distinct : (r.replies.map fun p => (p.channel, p.number)).Nodup
  told : ∀ p ∈ r.replies, fate es p.channel p.number = .done p.outcome ∧
    Timely p.op p.limit p.start p.finish p.outcome

structure Sound (w : World Log Part) (r : Recorded) : Prop where
  explained : Client.Explained w.told.notes r.steps
  reader : ∀ i, r.server.client.reader = some i → w.role i = .reader ∨ w.role i = .gone
  kept : sends w.told.notes ≤ UInt64.size → Kept w.told.notes w.role r

/-- A request has come to its end, and its reply is not recorded yet. -/
def Finished (w : World Log Part) (r : Recorded) (id : ChannelId) (n : RequestId)
    (o : Except Failure Json) : Prop := sends w.told.notes ≤ UInt64.size →
  fate w.told.notes id n = .done o ∧ ∀ p ∈ r.replies, (p.channel, p.number) ≠ (id, n)

def pact : Pact Log Part Recorded where
  holds := Sound
  shows g t := t = g.now
  own g g' := g.notes <:+ g'.notes ∧ g'.now = g.now
  others g g' := g.notes <:+ g'.notes
  unborn := .unborn
  gone := .gone
  isLoose := Part.isReader

theorem pact_isFair : pact.IsFair where
  own_refl _ := ⟨List.suffix_rfl, rfl⟩
  own_trans _ _ _ hf hg := ⟨hf.1.trans hg.1, hg.2.trans hf.2⟩
  others_trans _ _ _ hf hg := List.IsSuffix.trans hf hg
  others_of_own _ _ _ hf hg := hf.1.trans hg
  shows_own f g t hg ht := by
    have ht : t = f.now := ht
    exact ht.trans hg.2.symm
  gone_ne h := by cases h
  unborn_fast := rfl

variable {es : List Note} {role : TaskId → Part} {r : Recorded} {w : World Log Part} {s : Server}
  {e : Note} {i me : TaskId} {id j : ChannelId} {n m : RequestId} {o : Except Failure Json} {c : Client}

theorem fate_cons_done (h : fate es id n = .done o) : fate (e :: es) id n = .done o := by
  obtain hsame | ⟨-, hmoves⟩ := fate_cons e es id n
  · exact hsame.trans h
  · rw [h] at hmoves
    cases hmoves

/-- The notes that neither open a request nor close one. -/
def IsPassive : Note → Prop
  | .posted _ _ => False
  | .expired _ _ _ _ => False
  | .collected _ _ => False
  | _ => True

theorem isOpen_cons (he : IsPassive e) : IsOpen (fate (e :: es) id n) ↔ IsOpen (fate es id n) := by
  obtain hsame | ⟨-, hmoves⟩ := fate_cons e es id n
  · rw [hsame]
  · generalize fate (e :: es) id n = g at hmoves
    generalize fate es id n = f at hmoves
    cases hmoves with
    | refused => simp [IsOpen]
    | outcome => simp [IsOpen]
    | _ => exact he.elim

theorem asking_cast_iff {p : Part} : (w.cast me p).role i = .asking id n ↔
    i = me ∧ p = .asking id n ∨ i ≠ me ∧ w.role i = .asking id n := by
  rw [World.role_cast]
  by_cases hi : i = me <;> simp [hi]

theorem fate_cons_eq {f : Fate}
    (h : ∀ m, e.advance m (fate es e.channel m) = if m = n then f else fate es e.channel m) :
    fate (e :: es) j m = if j = e.channel ∧ m = n then f else fate es j m := by
  by_cases hj : j = e.channel
  · rw [hj, fate_cons_self, h]
    simp
  · rw [fate_cons_of_ne (Ne.symm hj), if_neg fun h => hj h.1]

namespace Kept

theorem calm (hk : Kept es role r) (h : r.server.client.Calm s.client) :
    Kept es role (recorder.set s r) :=
  ⟨hk.faithful, hk.books.calm h, hk.asking, hk.single, hk.distinct, hk.told⟩

theorem note (hk : Kept es role r) {role' : TaskId → Part} (hfaithful : Faithful (e :: es))
    (hbooks : s.client.Books (e :: es))
    (hasking : ∀ id n, IsOpen (fate (e :: es) id n) ↔ ∃ i, role' i = .asking id n)
    (hsingle : ∀ i j id n, role' i = .asking id n → role' j = .asking id n → i = j) :
    Kept (e :: es) role' (recorder.set s r) :=
  ⟨hfaithful, hbooks, hasking, hsingle, hk.distinct,
    fun p hp => (hk.told p hp).imp_left fate_cons_done⟩

/-- One request moves on, and with it the task whose business it is. -/
theorem turn {p : Part} {f : Fate} (hk : Kept w.told.notes w.role r)
    (hfate : ∀ j m, fate (e :: w.told.notes) j m =
      if j = id ∧ m = n then f else fate w.told.notes j m)
    (hold : ∀ i j m, w.role i = .asking j m → (i = me ↔ j = id ∧ m = n))
    (hnew : ∀ j m, p = .asking j m ↔ (j = id ∧ m = n) ∧ IsOpen f) :
    (∀ j m, IsOpen (fate (e :: w.told.notes) j m) ↔ ∃ i, (w.cast me p).role i = .asking j m) ∧
      ∀ i k j m, (w.cast me p).role i = .asking j m → (w.cast me p).role k = .asking j m → i = k := by
  refine ⟨fun j m => ?_, fun i k j m hi hk' => ?_⟩
  · rw [hfate]
    -- only the request of `me` has another fate than before
    by_cases hjm : j = id ∧ m = n
    · rw [if_pos hjm]
      constructor
      · intro hopen
        exact ⟨me, (w.role_cast_self me p).trans ((hnew j m).mpr ⟨hjm, hopen⟩)⟩
      · rintro ⟨i, hi⟩
        obtain ⟨-, hi⟩ | ⟨hne, hi⟩ := asking_cast_iff.mp hi
        · exact ((hnew j m).mp hi).2
        · exact absurd ((hold i j m hi).mpr hjm) hne
    · rw [if_neg hjm, hk.asking]
      refine exists_congr fun i => ?_
      rw [asking_cast_iff]
      constructor
      · intro hi
        exact .inr ⟨fun hme => hjm ((hold i j m hi).mp hme), hi⟩
      · rintro (⟨-, hi⟩ | ⟨-, hi⟩)
        · exact absurd ((hnew j m).mp hi).1 hjm
        · exact hi
  · obtain ⟨hi, hp⟩ | ⟨hne, hi⟩ := asking_cast_iff.mp hi
    · obtain ⟨hk', -⟩ | ⟨hne, hk'⟩ := asking_cast_iff.mp hk'
      · exact hi.trans hk'.symm
      · exact absurd ((hold k j m hk').mpr ((hnew j m).mp hp).1) hne
    · obtain ⟨-, hp⟩ | ⟨-, hk'⟩ := asking_cast_iff.mp hk'
      · exact absurd ((hold i j m hi).mpr ((hnew j m).mp hp).1) hne
      · exact hk.single i k j m hi hk'

end Kept

namespace Sound

theorem ne_of_reader {p : Part} (hs : Sound w r) (hi : r.server.client.reader = some i)
    (hme : w.role me = p) (hp : p ≠ .reader ∧ p ≠ .gone) : i ≠ me := by
  rintro rfl
  rw [← hme] at hp
  exact (hs.reader i hi).elim hp.1 hp.2

theorem calm (hs : Sound w r) (h : r.server.client.Calm s.client)
    (hreader : ∀ i, s.client.reader = some i → w.role i = .reader ∨ w.role i = .gone) :
    Sound w (recorder.set s r) :=
  ⟨hs.explained.calm h, hreader, fun hsends => (hs.kept hsends).calm h⟩

/-- Something is noted, and the tasks have other parts. -/
theorem note (hs : Sound w r) (hx : r.server.client.Explains e s.client)
    (hended : ∀ id code, e = .crashed id code → .ended id ∈ w.told.notes)
    (hwaiting : ∀ id n op limit, e = .expired id n op limit → Kept w.told.notes w.role r →
      fate w.told.notes id n = .waiting)
    {v : World Log Part} (hnotes : v.told.notes = e :: w.told.notes)
    (hreader : ∀ i, s.client.reader = some i → v.role i = .reader ∨ v.role i = .gone)
    (hroles : Kept w.told.notes w.role r → e.Fits w.told.notes → sends (e :: w.told.notes) ≤ UInt64.size →
      (∀ id n, IsOpen (fate (e :: w.told.notes) id n) ↔ ∃ i, v.role i = .asking id n) ∧
      ∀ i j id n, v.role i = .asking id n → v.role j = .asking id n → i = j) :
    Sound v (recorder.set s r) := by
  refine ⟨hnotes ▸ hs.explained.note hx, hreader, fun hsends => ?_⟩
  rw [hnotes] at hsends ⊢
  have hk := hs.kept (Nat.le_trans sends_le_cons hsends)
  have hfits := hk.books.fits hx hended fun id n op limit h => hwaiting id n op limit h hk
  obtain ⟨hasking, hsingle⟩ := hroles hk hfits hsends
  exact hk.note (hk.faithful.cons hfits) (hk.books.explained hx hk.faithful hfits hsends) hasking hsingle

theorem note_passive (hs : Sound w r) (he : IsPassive e) (hx : r.server.client.Explains e s.client)
    (hended : ∀ id code, e = .crashed id code → .ended id ∈ w.told.notes)
    (hreader : s.client.reader = r.server.client.reader) :
    Sound (w.tell (w.told.note e)) (recorder.set s r) := by
  refine hs.note hx hended (fun id n op limit h => ?_) rfl (fun i hi => hs.reader i (hreader ▸ hi)) ?_
  · rw [h] at he
    exact he.elim
  · exact fun hk _ _ => ⟨fun id n => (isOpen_cons he).trans (hk.asking id n), hk.single⟩

theorem heard (hs : Sound w r) {text : String} {q : Server}
    (h : r.server.client.hear id = some (.line text, s.client))
    (hq : q.client = s.client.updateChannel id (·.accept text)) :
    Sound (w.tell (w.told.note (.heard id text))) (recorder.set q (recorder.set s r)) := by
  have hread : q.client.reader = r.server.client.reader := by
    obtain ⟨link, hlink⟩ := Client.hear_eq_some h
    rw [hq, hlink]
    rfl
  refine ⟨?_, fun i hi => hs.reader i (hread ▸ hi), fun hsends => ?_⟩
  · have hexplained := hs.explained.heard h
    rw [← hq] at hexplained
    exact hexplained
  · have hk := hs.kept (Nat.le_trans sends_le_cons hsends)
    have hbooks := hk.books.heard h
    rw [← hq] at hbooks
    have he : IsPassive (.heard id text) := trivial
    exact ⟨hk.faithful.cons trivial, hbooks, fun id n => (isOpen_cons he).trans (hk.asking id n),
      hk.single, hk.distinct, fun p hp => (hk.told p hp).imp_left fate_cons_done⟩

theorem cast {p : Part} (hs : Sound w r) (hold : ∀ id n, w.role i ≠ .asking id n)
    (hnew : ∀ id n, p ≠ .asking id n)
    (hreader : r.server.client.reader = some i → p = .reader ∨ p = .gone) : Sound (w.cast i p) r := by
  have hrole (k : TaskId) (id : ChannelId) (n : RequestId) :
      (w.cast i p).role k = .asking id n ↔ w.role k = .asking id n := by
    rw [World.role_cast]
    split
    · next hk =>
      subst hk
      exact iff_of_false (hnew id n) (hold id n)
    · rfl
  refine ⟨hs.explained, fun k hk => ?_, fun hsends => ?_⟩
  · rw [World.role_cast]
    split
    · next hki => exact hreader (hki ▸ hk)
    · exact hs.reader k hk
  · have hk := hs.kept hsends
    refine ⟨hk.faithful, hk.books, fun id n => ?_, fun i j id n hi hj => ?_, hk.distinct, hk.told⟩
    · simp only [hrole]
      exact hk.asking id n
    · exact hk.single i j id n ((hrole i id n).mp hi) ((hrole j id n).mp hj)

theorem born {p : Part} (hs : Sound w r) (hi : w.role i = .unborn) (hp : ∀ id n, p ≠ .asking id n) :
    Sound (w.cast i p) r := by
  refine hs.cast (fun id n h => ?_) hp fun hreader => ?_
  · cases hi.symm.trans h
  · exact absurd rfl (hs.ne_of_reader hreader hi ⟨nofun, nofun⟩)

/-- Who has posted a request asks until it has the outcome. -/
theorem posted (hs : Sound w r) (hme : w.role me = .guest)
    (hx : r.server.client.Explains (.posted id n) s.client)
    (hreader : s.client.reader = r.server.client.reader) :
    Sound ((w.tell (w.told.note (.posted id n))).cast me (.asking id n)) (recorder.set s r) := by
  refine hs.note hx nofun nofun rfl (fun i hi => ?_) fun hk hfits hsends => ?_
  · have hne := hs.ne_of_reader (hreader ▸ hi) hme ⟨nofun, nofun⟩
    rw [World.role_cast_of_ne _ _ hne]
    exact hs.reader i (hreader ▸ hi)
  · have hnew : fate w.told.notes id n = .unsent := hk.faithful.unsent hfits rfl hsends
    -- a number that was not sent is nobody's business
    have hunasked (i : TaskId) : w.role i ≠ .asking id n := by
      intro hi
      have hopen := (hk.asking id n).mpr ⟨i, hi⟩
      rw [hnew] at hopen
      obtain hopen | ⟨o, hopen⟩ := hopen <;> cases hopen
    have hfate (j : ChannelId) (m : RequestId) : fate (.posted id n :: w.told.notes) j m =
        if j = id ∧ m = n then .waiting else fate w.told.notes j m :=
      fate_cons_eq fun m => Note.advance_posted id m hnew
    refine hk.turn hfate (fun i j m hi => ?_) fun j m => ?_
    · refine iff_of_false (fun heq => ?_) fun ⟨hj, hm⟩ => hunasked i (hj ▸ hm ▸ hi)
      rw [heq, hme] at hi
      cases hi
    · rw [Part.asking.injEq]
      exact ⟨fun ⟨hj, hm⟩ => ⟨⟨hj.symm, hm.symm⟩, .inl rfl⟩, fun ⟨⟨hj, hm⟩, _⟩ => ⟨hj.symm, hm.symm⟩⟩

theorem finish (hs : Sound w r) (hme : w.role me = .asking id n) (he : e.channel = id)
    (hx : r.server.client.Explains e s.client) (hreader : s.client.reader = r.server.client.reader)
    (hended : ∀ id code, e ≠ .crashed id code)
    (hwaiting : ∀ id n op limit, e = .expired id n op limit → Kept w.told.notes w.role r →
      fate w.told.notes id n = .waiting)
    (hdone : Kept w.told.notes w.role r → ∀ m, e.advance m (fate w.told.notes id m) =
      if m = n then .done o else fate w.told.notes id m) :
    Sound ((w.tell (w.told.note e)).cast me .guest) (recorder.set s r) ∧
      Finished ((w.tell (w.told.note e)).cast me .guest) (recorder.set s r) id n o := by
  have hfate (hk : Kept w.told.notes w.role r) (j : ChannelId) (m : RequestId) :
      fate (e :: w.told.notes) j m = if j = id ∧ m = n then .done o else fate w.told.notes j m := by
    subst he
    exact fate_cons_eq (hdone hk)
  refine ⟨?_, fun hsends => ?_⟩
  · refine hs.note hx (fun id code h => absurd h (hended id code)) hwaiting rfl (fun i hi => ?_)
      fun hk _ _ => ?_
    · have hne := hs.ne_of_reader (hreader ▸ hi) hme ⟨nofun, nofun⟩
      rw [World.role_cast_of_ne _ _ hne]
      exact hs.reader i (hreader ▸ hi)
    · refine hk.turn (hfate hk) (fun i j m hi => ⟨?_, ?_⟩) fun j m => ?_
      · rintro rfl
        cases hme.symm.trans hi
        exact ⟨rfl, rfl⟩
      · rintro ⟨rfl, rfl⟩
        exact hk.single i me j m hi hme
      · refine iff_of_false nofun fun ⟨_, h⟩ => ?_
        obtain h | ⟨o, h⟩ := h <;> cases h
  · have hk := hs.kept (Nat.le_trans sends_le_cons hsends)
    refine ⟨(hfate hk id n).trans (if_pos ⟨rfl, rfl⟩), fun p hp heq => ?_⟩
    have hopen := (hk.asking id n).mpr ⟨me, hme⟩
    have htold := (hk.told p hp).1
    cases heq
    rw [htold] at hopen
    obtain hopen | ⟨o, hopen⟩ := hopen <;> cases hopen

theorem expired (op : Operation) (limit : Duration) (hs : Sound w r) (hme : w.role me = .asking id n)
    (hnone : (r.server.client.channel id).outcomes.find? n = none)
    (hclient : s.client = r.server.client.updateChannel id (·.withdraw n)) :
    Sound ((w.tell (w.told.note (.expired id n op limit))).cast me .guest) (recorder.set s r) ∧
      Finished ((w.tell (w.told.note (.expired id n op limit))).cast me .guest) (recorder.set s r) id n
        (.error (.timedOut op.method limit)) := by
  have hwaiting (hk : Kept w.told.notes w.role r) : fate w.told.notes id n = .waiting := by
    refine ((hk.asking id n).mpr ⟨me, hme⟩).resolve_right fun ⟨o, ho⟩ => ?_
    have hfound := ((hk.books.agrees id).outcomes n o).mpr ho
    cases hnone.symm.trans hfound
  refine hs.finish hme rfl (hclient ▸ .expired) ?_ nofun (fun id' n' op' limit' h hk => ?_)
    fun hk m => Note.advance_expired id m op limit (hwaiting hk)
  · rw [hclient]
    rfl
  · cases h
    exact hwaiting hk

theorem collected (hs : Sound w r) (hme : w.role me = .asking id n)
    (h : r.server.client.fromChannel id (·.collect n) = some (o, s.client)) :
    Sound ((w.tell (w.told.note (.collected id n))).cast me .guest) (recorder.set s r) ∧
      Finished ((w.tell (w.told.note (.collected id n))).cast me .guest) (recorder.set s r) id n o := by
  obtain ⟨hfound, hclient⟩ := Client.collect_eq_some h
  refine hs.finish hme rfl (.collected h) ?_ nofun nofun fun hk m => ?_
  · rw [hclient]
    rfl
  · exact Note.advance_collected id m (((hk.books.agrees id).outcomes n o).mp hfound)

theorem refused {f : Failure} {unwritten : Bool} (hs : Sound w r)
    (hx : r.server.client.Explains (.refused id n f unwritten) s.client)
    (hreader : s.client.reader = r.server.client.reader) :
    Sound (w.tell (w.told.note (.refused id n f unwritten))) (recorder.set s r) ∧
      Finished (w.tell (w.told.note (.refused id n f unwritten))) (recorder.set s r) id n (.error f) := by
  have hpassive : IsPassive (.refused id n f unwritten) := trivial
  refine ⟨hs.note_passive hpassive hx nofun hreader, fun hsends => ?_⟩
  have hk := hs.kept (Nat.le_trans sends_le_cons hsends)
  have hnew : fate w.told.notes id n = .unsent := by
    refine hk.faithful.unsent (hk.books.fits hx nofun nofun) rfl hsends
  refine ⟨?_, fun p hp heq => ?_⟩
  · exact (fate_cons_eq fun m => Note.advance_refused id m f unwritten hnew).trans (if_pos ⟨rfl, rfl⟩)
  · have htold := (hk.told p hp).1
    cases heq
    cases hnew.symm.trans htold

theorem reply {p : Reply} (hs : Sound w r) (hp : Finished w r p.channel p.number p.outcome)
    (htimely : sends w.told.notes ≤ UInt64.size → Timely p.op p.limit p.start p.finish p.outcome) :
    Sound w { r with replies := p :: r.replies } := by
  refine ⟨hs.explained, hs.reader, fun hsends => ?_⟩
  have hk := hs.kept hsends
  obtain ⟨hdone, hnew⟩ := hp hsends
  refine ⟨hk.faithful, hk.books, hk.asking, hk.single, ?_, fun q hq => ?_⟩
  · rw [List.map_cons, List.nodup_cons]
    refine ⟨fun hmem => ?_, hk.distinct⟩
    obtain ⟨q, hq, heq⟩ := List.mem_map.mp hmem
    exact hnew q hq heq
  · obtain rfl | hq := List.mem_cons.mp hq
    · exact ⟨hdone, htimely hsends⟩
    · exact hk.told q hq

end Sound

end LanguageServer.Server.Correlation
