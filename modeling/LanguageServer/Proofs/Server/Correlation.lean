import LanguageServer.Proofs.Server.Exchange

/-! All runs of tasks that start, stop and ask the analysis process. Every request is told by its number
what became of it, once, and what waits on a channel are the requests that nothing became of yet. -/
namespace LanguageServer.Server.Correlation

open Analyzer

variable {α : Type} {w : World Log Part} {r : Recorded} {s : Server} {i : TaskId} {m n : Machine Recorded}

/-- Tasks that have to do with requests only by making some and by starting and stopping the process.
Nobody who asks is dropped. -/
inductive Drives : {α : Type} → Task Recorded α → Prop
  | quiet {α : Type} {t : Job α} : t.Behaves Undisturbed → Drives (t.zoom recorder)
  | start : Drives (start.zoom recorder)
  | stop : Drives (stop.zoom recorder)
  | ask {op : Operation} {params : Json} {limit : Duration} : Drives (ask op params limit)
  | request {α : Type} {op : Operation} {params : Json} {read : Json → Option α} :
    Drives ((request op params read).zoom recorder)
  | bind {α β : Type} {t : Task Recorded α} {g : α → Task Recorded β} :
    Drives t → (∀ a, Drives (g a)) → Drives (t.bind g)
  | fork {t : Task Recorded Unit} : Drives t → Drives (Task.fork t)
  | startingUp {α : Type} {t : Job α} :
    Drives (t.zoom recorder) → Drives ((startingUp t).zoom recorder)

theorem Serves.ready {t : Task Recorded Unit} (ht : Serves t) (hi : w.role i = .guest) :
    pact.Ready i w t := by
  intro v r hv hs
  refine ht true i v r _ (hv.2.trans hi) hs (fun _ _ _ _ hv h => h.of_step pact_isFair hv) ?_
  exact fun _ u r hu hs => ⟨u.told, pact_isFair.own_refl _, pact_hosts.leaves u r i hu hs⟩

theorem Drives.serves {t : Task Recorded α} (ht : Drives t) : Serves t := by
  induction ht with
  | quiet ht => exact .of_behaves ht
  | start => exact serves_start
  | stop => exact serves_stop
  | ask => exact serves_ask
  | request => exact serves_request
  | bind _ _ iht ihg => exact iht.bind ihg
  | fork _ ih =>
    intro waited me w r Q hme hs _ hQ
    refine pact_hosts.honors_fork (fun i v hi => ih.ready hi) hs fun i v hv hs => ?_
    exact hQ i v r (hv.2.trans hme) hs
  | startingUp _ ih => exact .exclusive (fun _ _ => undisturbed_of_channels rfl rfl rfl) ih

/-- Processes read, write and end. Other parts of the server are free to change. -/
structure Relinked (s s' : Server) : Prop where
  client : s'.client = { s.client with channels := s'.client.channels }
  channel : ∀ id, ∃ link, s'.client.channel id = { s.client.channel id with link }

/-- The runs of a server. Tasks join and move in any order; between two moves processes read, write and
end, and time passes. -/
inductive Run : Machine Recorded → Prop
  | start (s : Server) : s.client = .new → Run (Machine.start ⟨s, [], []⟩)
  | spawn {m : Machine Recorded} {t : Task Recorded Unit} : Run m → Drives t → Run (m.spawn t)
  | other {m : Machine Recorded} (s : Server) (now : Instant) : Run m → Relinked m.state.server s →
    Run { m with state := { m.state with server := s }, now }
  | move {m n : Machine Recorded} (i : TaskId) : Run m → m.step? i = some n → Run n

theorem books_new : Client.new.Books [] where
  agrees _ := ⟨List.nodup_nil, fun _ => iff_of_false List.not_mem_nil nofun, fun _ _ => iff_of_false nofun nofun⟩
  closing _ h := by cases h
  dead _ h := by cases h
  nextRequest := rfl

theorem sound_start (hs : s.client = .new) (now : Instant) :
    Sound ⟨⟨[], now⟩, fun _ => .unborn⟩ ⟨s, [], []⟩ := by
  refine ⟨.nil, fun i hi => ?_, fun _ => ⟨.nil, hs ▸ books_new, fun id n => ?_, nofun, List.nodup_nil, nofun⟩⟩
  · rw [hs] at hi
    cases hi
  · refine iff_of_false (fun h => ?_) fun ⟨_, h⟩ => nomatch h
    obtain h | ⟨o, h⟩ := h <;> cases h

theorem Sound.relinked (hs : Sound w r) (h : Relinked r.server s) (now : Instant) :
    Sound (w.tell { w.told with now }) { r with server := s } := by
  have hnext : s.client.nextRequest = r.server.client.nextRequest := h.client ▸ rfl
  have hreader : s.client.reader = r.server.client.reader := h.client ▸ rfl
  refine ⟨hs.explained, fun i hi => hs.reader i (hreader ▸ hi), fun hsends => ?_⟩
  have hk := hs.kept hsends
  exact ⟨hk.faithful, hk.books.relinked hnext h.channel, hk.asking, hk.single, hk.distinct, hk.told⟩

theorem Run.binds (hr : Run m) : ∃ w, pact.Binds w m := by
  induction hr with
  | start s hs =>
    refine ⟨⟨⟨[], ⟨0⟩⟩, fun _ => .unborn⟩, sound_start hs _, rfl, nofun, nofun, List.nodup_nil, ?_,
      fun _ _ => rfl⟩
    exact fun i => iff_of_false (fun h => h.1 rfl) List.not_mem_nil
  | @spawn m t _ ht ih =>
    obtain ⟨w, hm⟩ := ih
    have hunborn : w.role m.next = .unborn := hm.unborn _ (Nat.le_refl _)
    have hjoined := pact_hosts.arrives w _ _ hunborn hm.holds
    have hready := ht.serves.ready (w.role_cast_self m.next .guest)
    exact ⟨_, hm.spawn pact_isFair List.suffix_rfl hm.shows pact_hosts.live hjoined hready⟩
  | other s now _ hs ih =>
    obtain ⟨w, hm⟩ := ih
    have hrelinked := Sound.relinked hm.holds hs now
    exact ⟨_, hm.others (g := { w.told with now }) pact_isFair List.suffix_rfl hrelinked rfl⟩
  | move i _ hn ih =>
    obtain ⟨w, hm⟩ := ih
    obtain ⟨v, -, hn⟩ := hm.step pact_isFair List.suffix_rfl hn
    exact ⟨v, hn⟩

section Course

inductive Cue where
  | join (t : Task Recorded Unit)
  | move (i : TaskId)
  | writes (id : ChannelId) (text : String)
  | waits (now : Instant)

def Cue.play (m : Machine Recorded) : Cue → Option (Machine Recorded)
  | .join t => some (m.spawn t)
  | .move i => m.step? i
  | .writes id text =>
    let written := Client.updateChannel id fun ch => { ch with link := ch.link.say text.toUTF8.toList }
    some { m with state := { m.state with server := clientLens.modify written m.state.server } }
  | .waits now => some { m with now }

theorem Run.play {cue : Cue} (hr : Run m) (ht : ∀ t, cue = .join t → Drives t)
    (hn : cue.play m = some n) : Run n := by
  cases cue with
  | join t =>
    cases hn
    exact hr.spawn (ht t rfl)
  | move i => exact hr.move i hn
  | writes id text =>
    cases hn
    refine hr.other _ m.now ⟨rfl, fun j => ?_⟩
    have hamends := m.state.server.client.amends_updateChannel id
      fun ch => { ch with link := ch.link.say text.toUTF8.toList }
    by_cases hj : j = id
    · subst hj
      exact ⟨_, hamends.self⟩
    · exact ⟨_, hamends.other j hj⟩
  | waits now =>
    cases hn
    exact hr.other _ now ⟨rfl, fun _ => ⟨_, rfl⟩⟩

theorem Run.plays {cues : List Cue} (hr : Run m) (ht : ∀ t, .join t ∈ cues → Drives t)
    (hn : cues.foldlM Cue.play m = some n) : Run n := by
  induction cues generalizing m with
  | nil =>
    cases hn
    exact hr
  | cons cue cues ih =>
    obtain ⟨q, hq, hn⟩ := Option.bind_eq_some_iff.mp hn
    refine ih (hr.play (fun t h => ht t (h ▸ List.mem_cons_self)) hq) (fun t h => ?_) hn
    exact ht t (List.mem_cons_of_mem _ h)

def asking (limit : Duration) : Task Recorded Unit := (ask .health (.object []) limit).bind fun _ => .done ()

def starting : Task Recorded Unit := (start.zoom recorder).bind fun _ => .done ()

def stopping : Task Recorded Unit := (stop.zoom recorder).bind fun _ => .done ()

/-- Four requests: the last is answered first, one answer has an error and a result, one comes too late,
and one request is still there at the stop. -/
def course : List Cue := [.join starting, .move 0, .writes 0 "\x7b\"id\":1\x7d\n", .move 1, .move 1,
  .move 1, .move 0, .join (asking (.ofSeconds 1)), .join (asking (.ofSeconds 1)),
  .join (asking (.ofMillis 5)), .join (asking (.ofSeconds 1)), .move 2, .move 3, .move 4, .move 5,
  .writes 0 "\x7b\"id\":5\x7d\nnothing\n\x7b\"id\":9\x7d\n", .move 1, .move 1, .move 1, .move 1, .move 1,
  .move 1, .writes 0 "\x7b\"id\":3,\"result\":1,\"error\":\x7b\"code\":7,\"message\":\"no\"\x7d\x7d\n",
  .move 1, .move 1, .move 5, .move 3, .waits ⟨5000000⟩, .move 4, .writes 0 "\x7b\"id\":4\x7d\n", .move 1,
  .join stopping, .move 6, .move 6, .move 2]

def failure? (p : Reply) : Option String :=
  match p.outcome with
  | .ok _ => none
  | .error f => some f.name

end Course

end LanguageServer.Server.Correlation
