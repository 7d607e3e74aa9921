import LanguageServer.Proofs.Server.Recorder

/-! Sending requests, reading lines, starting and stopping, each as a guest of the pact on requests. -/
namespace LanguageServer.Server.Correlation

open Analyzer

variable {α β : Type} {w v : World Log Part} {r : Recorded} {s : Server} {i me : TaskId}
  {id : ChannelId} {n : RequestId} {o : Except Failure Json} {c : Client}

/-- Requests are as they were, and so is the reader. -/
def Undisturbed (s s' : Server) : Prop :=
  s.client.Calm s'.client ∧ s'.client.reader = s.client.reader

theorem Undisturbed.refl (s : Server) : Undisturbed s s := ⟨.refl _, rfl⟩

theorem undisturbed_of_channels {s s' : Server} (hchannels : s'.client.channels = s.client.channels)
    (hnext : s'.client.nextRequest = s.client.nextRequest)
    (hreader : s'.client.reader = s.client.reader) : Undisturbed s s' :=
  ⟨Client.calm_of_channels hnext hchannels, hreader⟩

theorem Undisturbed.allowsCalm (id : ChannelId) : Allows Channel.Calm id Undisturbed where
  refl := Undisturbed.refl
  amend _ _ h := ⟨Client.calm_insert h, rfl⟩

def Quiet (r r' : Recorded) : Prop := ∃ s, Undisturbed r.server s ∧ r' = recorder.set s r

theorem pact_hosts : pact.Hosts .guest Quiet where
  fair := pact_isFair
  live := ⟨nofun, nofun⟩
  keeps w r r' hquiet hs := by
    obtain ⟨s, ⟨hcalm, hreader⟩, rfl⟩ := hquiet
    exact Sound.calm hs hcalm fun i hi => hs.reader i (hreader ▸ hi)
  arrives w r i hi hs := Sound.born hs hi nofun
  leaves w r i hi hs := Sound.cast hs (fun id n h => by cases hi.symm.trans h) nofun fun _ => .inr rfl

theorem Undisturbed.zoom {t : Job α} (h : t.Behaves Undisturbed) :
    (t.zoom recorder).Behaves Quiet :=
  ⟨h.keeps.zoom fun _ s hs => ⟨s, hs, rfl⟩, h.dropsNone.zoom⟩

theorem steps_note {e : Note} : pact.Steps me w (w.tell (w.told.note e)) :=
  ⟨w.told.note e, w.role me, ⟨List.suffix_cons _ _, rfl⟩, rfl, (World.cast_role _ me).symm⟩

theorem steps_cast (e : Note) {p : Part} (hp : p.isReader = (w.role me).isReader) :
    pact.Steps me w ((w.tell (w.told.note e)).cast me p) :=
  ⟨w.told.note e, p, ⟨List.suffix_cons _ _, rfl⟩, hp, rfl⟩

/-- What is true when a task ends is true already before the last step that it takes by itself. -/
def Closed (me : TaskId) (Q : α → World Log Part → Recorded → Prop) : Prop :=
  ∀ a w v r, pact.Steps me w v → Q a v r → Q a w r

theorem Closed.honors {Q : β → World Log Part → Recorded → Prop} (hQ : Closed me Q)
    (g : α → Task Recorded β) : Closed me fun a v r => (g a).Honors pact me false Q v r :=
  fun _ _ _ _ hv hrest => hrest.of_step pact_isFair hv hQ

/-- The task keeps to the pact as a guest, and is a guest again when it ends. -/
def Serves (t : Task Recorded α) : Prop :=
  ∀ (waited : Bool) (me : TaskId) (w : World Log Part) (r : Recorded)
    (Q : α → World Log Part → Recorded → Prop), w.role me = .guest → Sound w r → Closed me Q →
    (∀ a v r, v.role me = .guest → Sound v r → Q a v r) → t.Honors pact me waited Q w r

namespace Serves

theorem done (a : α) : Serves (.done a) := fun _ _ _ _ _ hme hs _ hQ => hQ a _ _ hme hs

theorem bind {t : Task Recorded α} {g : α → Task Recorded β} (ht : Serves t)
    (hg : ∀ a, Serves (g a)) : Serves (t.bind g) := by
  intro waited me w r Q hme hs hclosed hQ
  refine Task.Honors.bind_of_done (fun a _ => hg a waited me w r Q hme hs hclosed hQ) ?_
  refine ht waited me w r _ hme hs (hclosed.honors g) fun a v r hme hs => ?_
  exact hg a false me v r Q hme hs hclosed hQ

theorem zoom_bind {t : Job α} {g : α → Job β} (ht : Serves (t.zoom recorder))
    (hg : ∀ a, Serves ((g a).zoom recorder)) : Serves ((t >>= g).zoom recorder) := by
  rw [Task.zoom_then]
  exact ht.bind hg

theorem of_behaves {t : Job α} (ht : t.Behaves Undisturbed) : Serves (t.zoom recorder) := by
  intro waited me w r Q hme hs _ hQ
  have hquiet := Undisturbed.zoom ht
  refine hquiet.keeps.honors pact_hosts hquiet.dropsNone hs ?_ fun a v r hv hs => ?_
  · exact hme ▸ pact_hosts.live
  · exact hQ a v r (hv.2.trans hme) hs

theorem onClient {f : Client → Client} (h : ∀ s, Undisturbed s (clientLens.modify f s)) :
    Serves ((onClient f).zoom recorder) := .of_behaves (.modify h)

theorem noted {f : Client → Client} (e : Note) (he : IsPassive e)
    (hended : ∀ id code, e ≠ .crashed id code)
    (h : ∀ c : Client, c.Explains e (f c) ∧ (f c).reader = c.reader) :
    Serves ((Server.onClient f).zoom recorder) := by
  intro waited me w r Q hme hs hclosed hQ
  obtain ⟨hx, hreader⟩ := h r.server.client
  have hnoted := hs.note_passive (s := clientLens.modify f r.server) he hx
    (fun id code h => absurd h (hended id code)) hreader
  exact Task.honors_zoom_modify (hclosed _ _ _ _ steps_note (hQ _ _ _ hme hnoted))

theorem exclusive {raised : Server → Bool} {set : Bool → Server → Server} {body : Job α}
    (hset : ∀ b s, Undisturbed s (set b s)) (hbody : Serves (body.zoom recorder)) :
    Serves ((Task.exclusive raised set body).zoom recorder) := by
  have hfree : Serves ((Task.waitFor fun s => !raised s).zoom recorder) := by
    refine .of_behaves (.await fun s _ s' h => ?_)
    obtain ⟨-, heq⟩ := Option.ite_none_right_eq_some.mp h
    cases heq
    exact .refl s
  refine .zoom_bind hfree fun _ => ?_
  intro waited me w r Q hme hs hclosed hQ t _
  have hheld (b : Bool) {u : World Log Part} {r : Recorded} (hs : Sound u r) :
      Sound u (recorder.set (set b r.server) r) := pact_hosts.keeps _ _ _ ⟨_, hset b _, rfl⟩ hs
  refine ⟨fun hloose => ?_, hbody false me w _ _ hme (hheld true hs) ?_ fun a v r hv hs => ?_⟩
  · rw [hme] at hloose
    cases hloose
  · exact fun a w v r hv h => hclosed a w v _ hv h
  · exact hQ a v _ hv (hheld false hs)

end Serves

theorem serves_dropReader : Serves (dropReader.zoom recorder) := by
  intro waited me w r Q hme hs hclosed hQ
  have hunread {u : World Log Part} (hs : Sound u r) :
      Sound u (recorder.set { r.server with client := { r.server.client with reader := none } } r) :=
    hs.calm (Client.calm_of_channels rfl rfl) nofun
  have hget : recorder.get r = r.server := rfl
  intro t _
  dsimp only [Lens.lift]
  rw [hget]
  cases hreader : r.server.client.reader with
  | none => exact hQ _ w _ hme (hunread hs)
  | some i =>
    have hrole := hs.reader i hreader
    have hne := hs.ne_of_reader hreader hme ⟨nofun, nofun⟩
    have hdropped : Sound (w.cast i .gone) r := by
      refine hs.cast (fun id n h => ?_) nofun fun _ => .inr rfl
      obtain h' | h' := hrole <;> cases h'.symm.trans h
    refine ⟨hne, ?_, hQ _ _ _ ((w.role_cast_of_ne _ hne.symm).trans hme) (hunread hdropped)⟩
    exact hrole.symm.imp_right fun h => by rw [h]; rfl

theorem parks_note {e : Note} {P : World Log Part → Recorded → Prop} (hme : pact.IsLive (w.role me))
    (hs : Sound (w.tell (w.told.note e)) r)
    (hP : ∀ v r, v.role me = w.role me → Sound v r → P v r) : pact.Parks me w r P := by
  refine ⟨w.told.note e, w.role me, ⟨List.suffix_cons _ _, rfl⟩, hme, rfl, ?_, fun v r hv hs => ?_⟩
  · exact (World.cast_role (w.tell (w.told.note e)) me).symm ▸ hs
  · exact hP v r (hv.2.trans (World.role_cast_self _ _ _)) hs

theorem rests_note {e : Note} (hme : w.role me = .reader) (hs : Sound (w.tell (w.told.note e)) r) :
    pact.Rests me w r := by
  refine ⟨w.told.note e, ⟨List.suffix_cons _ _, rfl⟩, hs.cast (fun id n h => ?_) nofun fun _ => .inr rfl⟩
  cases hme.symm.trans h

theorem isLive_reader : pact.IsLive .reader := ⟨nofun, nofun⟩

/-- The lines of a process are read until they end. -/
theorem honors_hearing (hme : w.role me = .reader) (hs : Sound w r)
    {Q : Unit → World Log Part → Recorded → Prop} (hclosed : Closed me Q)
    (hQ : ∀ v r, v.role me = .reader → Sound v r → .ended id ∈ v.told.notes → Q () v r) :
    ((hearing id).zoom recorder).Honors pact me true Q w r := by
  refine ⟨fun _ v r => v.role me = .reader ∧ Sound v r, ⟨hme, hs⟩, fun _ v r ⟨hme, hs⟩ => ?_⟩
  refine .of_since pact_isFair false hs (hme ▸ isLive_reader) fun u r hu hs t heard r' _ hready => ?_
  have hme : u.role me = .reader := hu.2.trans hme
  obtain ⟨⟨_, s⟩, hgiven, heq⟩ := Option.map_eq_some_iff.mp hready
  cases heq
  obtain ⟨⟨_, c⟩, hheard, heq⟩ := Option.map_eq_some_iff.mp hgiven
  cases heq
  cases heard with
  | line text =>
    intro _ _
    have htaken := Sound.heard hs hheard (s := { r.server with client := c })
      (q := clientLens.modify (Client.updateChannel id (·.accept text)) { r.server with client := c }) rfl
    exact parks_note (hme ▸ isLive_reader) htaken fun v r hv hs => ⟨hv.trans hme, hs⟩
  | ended =>
    have hpassive : IsPassive (.ended id) := trivial
    have hreader : c.reader = r.server.client.reader := by
      obtain ⟨link, rfl⟩ := Client.hear_eq_some hheard
      rfl
    have hnoted := Sound.note_passive hs (s := { r.server with client := c }) hpassive (.ended hheard) nofun
      hreader
    exact hclosed _ _ _ _ steps_note (hQ _ _ hme hnoted List.mem_cons_self)

theorem listen_ready (hme : w.role me = .reader) : pact.Ready me w ((listen id).zoom recorder) := by
  intro v r hv hs
  have hme : v.role me = .reader := hv.2.trans hme
  rw [listen_eq, Task.zoom_then]
  refine (Task.honorsFrom_bind _ _ _ (.inl rfl)).mpr ?_
  have hrests : Closed me fun _ : Unit => pact.Rests me := fun _ _ _ _ hv h => h.of_step pact_isFair hv
  refine honors_hearing hme hs (hrests.honors _) fun u r hme hs hended => ?_
  have hread : Sound u (recorder.set r.server r) := pact_hosts.keeps _ _ _ ⟨_, .refl _, rfl⟩ hs
  rw [Task.zoom_then, Task.honors_then]
  refine Task.honors_zoom_read ?_
  split
  · next hclosing =>
    have hlost := hread.note_passive (s := clientLens.modify (Client.updateChannel id (·.failAll .terminated)) r.server)
      (e := .lost id) trivial (.lost hclosing) nofun rfl
    exact Task.honors_zoom_modify (rests_note hme hlost)
  · have hreap := Undisturbed.zoom (behaves_reap (Undisturbed.allowsCalm id))
    rw [Task.zoom_then, Task.honors_then]
    refine hreap.keeps.honors pact_hosts hreap.dropsNone hread (hme ▸ isLive_reader) ?_
    intro code v r hv hs
    have hended : .ended id ∈ v.told.notes := by
      obtain hsame | hlater := hv.1
      · exact hsame ▸ hended
      · exact hlater.subset hended
    have hme : v.role me = .reader := hv.2.trans hme
    have hcrashed := Sound.note_passive hs (s := clientLens.modify (·.disconnect id code) r.server)
      (e := .crashed id code) trivial .crashed (fun id' code' h => by cases h; exact hended)
      (Client.reader_disconnect _ id code)
    exact Task.honors_zoom_modify (rests_note hme hcrashed)

/-- The wait for the outcome of a request that was posted. -/
def receive (id : ChannelId) (n : RequestId) (op : Operation) (limit : Duration) :
    Job (Except Failure Json) := do
  match ← Task.awaitFor limit (fun s => (s.client.fromChannel id (·.collect n)).map
      fun (o, client) => (o, { s with client })) with
  | some o => return o
  | none =>
    Server.onClient (Client.updateChannel id (·.withdraw n))
    return .error (.timedOut op.method limit)

theorem send_eq (id : ChannelId) (op : Operation) (params : Json) (limit : Duration) :
    send id op params limit = (do
      match ← Task.update (clientLens.lift fun c => c.post id op params) with
      | .error f => return .error f
      | .ok n => receive id n op limit) := rfl

variable {op : Operation} {params : Json} {limit : Duration}

/-- Who asks has the outcome of its request in the end, or gives up at its limit. -/
theorem honors_receive (hme : w.role me = .asking id n) (hs : Sound w r)
    {Q : Except Failure Json → World Log Part → Recorded → Prop} (hclosed : Closed me Q)
    (hQ : ∀ o v r', v.role me = .guest → Sound v r' → Finished v r' id n o →
      (sends v.told.notes ≤ UInt64.size → Timely op limit w.told.now v.told.now o) → Q o v r') :
    ((receive id n op limit).zoom recorder).Honors pact me false Q w r := by
  unfold receive
  rw [Task.zoom_then, Task.honors_then]
  refine Task.honors_zoom_awaitFor fun start hstart => ?_
  have hstart : start = w.told.now := hstart
  have hread : Sound w (recorder.set r.server r) := pact_hosts.keeps _ _ _ ⟨_, .refl _, rfl⟩ hs
  refine Pact.Turns.of_since pact_isFair false hread (hme ▸ ⟨nofun, nofun⟩) fun v r hv hs => ?_
  have hme : v.role me = .asking id n := hv.2.trans hme
  refine ⟨fun now hnow hlate hnone => ?_, fun o s hready => ?_⟩
  · have hnow : now = v.told.now := hnow
    have hread : Sound v (recorder.set r.server r) := pact_hosts.keeps _ _ _ ⟨_, .refl _, rfl⟩ hs
    -- what runs out of time has no outcome yet
    have hunsettled : (r.server.client.channel id).outcomes.find? n = none := by
      have hnone : (r.server.client.fromChannel id (·.collect n)) = none := Option.map_eq_none_iff.mp hnone
      exact Option.map_eq_none_iff.mp (Option.map_eq_none_iff.mp hnone)
    obtain ⟨hexpired, hfinished⟩ := hread.expired op limit
      (s := clientLens.modify (Client.updateChannel id (·.withdraw n)) r.server) hme hunsettled rfl
    dsimp only
    rw [Task.zoom_then, Task.honors_then]
    have hstep : pact.Steps me v ((v.tell (v.told.note (.expired id n op limit))).cast me .guest) :=
      steps_cast _ (congrArg Part.isReader hme).symm
    refine Task.honors_zoom_modify (hclosed _ _ _ _ hstep (hQ _ _ _ ?_ hexpired hfinished ?_))
    · exact World.role_cast_self _ _ _
    · intro _ method span heq
      cases heq
      rw [← hstart]
      exact ⟨rfl, rfl, hnow ▸ hlate⟩
  · obtain ⟨⟨_, client⟩, hclient, heq⟩ := Option.map_eq_some_iff.mp hready
    cases heq
    obtain ⟨hcollected, hfinished⟩ := Sound.collected hs hme hclient (s := { r.server with client })
    have hstep : pact.Steps me v ((v.tell (v.told.note (.collected id n))).cast me .guest) :=
      steps_cast _ (congrArg Part.isReader hme).symm
    refine hclosed _ _ _ _ hstep (hQ _ _ _ ?_ hcollected hfinished ?_)
    · exact World.role_cast_self _ _ _
    · -- what is collected was settled by another, and nobody else times out
      intro hsends method span heq
      have hk := hs.kept (Nat.le_trans sends_le_cons hsends)
      obtain ⟨hfound, -⟩ := Client.collect_eq_some hclient
      have hsettled := ((hk.books.agrees id).outcomes n o).mp hfound
      exact absurd (heq ▸ hsettled) fate_ne_settled_timedOut

/-- Who sends a request asks until it has come to its end. -/
theorem honors_send {waited : Bool} (hme : w.role me = .guest) (hs : Sound w r)
    {Q : Except Failure Json → World Log Part → Recorded → Prop} (hclosed : Closed me Q)
    (hQ : ∀ o v r', v.role me = .guest → Sound v r' →
      Finished v r' id r.server.client.nextRequest o →
      (sends v.told.notes ≤ UInt64.size → Timely op limit w.told.now v.told.now o) → Q o v r') :
    ((send id op params limit).zoom recorder).Honors pact me waited Q w r := by
  rw [send_eq, Task.zoom_then]
  refine (Task.honorsFrom_bind _ _ _ (.inl rfl)).mpr (Task.honors_zoom_update ?_)
  rcases hpost : r.server.client.post id op params with ⟨posted, client⟩
  have hlift : clientLens.lift (fun c => c.post id op params) (recorder.get r) =
      (posted, { r.server with client }) := by
    simp [clientLens, Lens.lift, recorder, hpost]
  rw [hlift]
  cases posted with
  | error f =>
    obtain ⟨hclient, hloss⟩ := Client.post_error hpost
    have hreader : client.reader = r.server.client.reader := by rw [hclient]
    obtain ⟨hrefused, hfinished⟩ := hs.refused (s := { r.server with client }) (.refused hpost) hreader
    refine hclosed _ _ _ _ steps_note (hQ _ _ _ hme hrefused hfinished fun _ method span h => ?_)
    obtain ⟨-, hf⟩ | ⟨-, code, hf⟩ := r.server.client.loss_cases id <;>
      cases (hloss.trans hf).symm.trans (Except.error.inj h)
  | ok n =>
    obtain ⟨rfl, link, hclient⟩ := Client.post_ok hpost
    have hreader : client.reader = r.server.client.reader := hclient ▸ rfl
    have hposted := hs.posted (s := { r.server with client }) hme (.posted hpost) hreader
    have hstep : pact.Steps me w ((w.tell (w.told.note (.posted id r.server.client.nextRequest))).cast me
        (.asking id r.server.client.nextRequest)) := steps_cast _ (congrArg Part.isReader hme).symm
    refine Task.Honors.of_step pact_isFair ?_ hstep hclosed
    exact honors_receive (World.role_cast_self _ _ _) hposted hclosed hQ

theorem serves_send : Serves ((send id op params limit).zoom recorder) := by
  intro waited me w r Q hme hs hclosed hQ
  exact honors_send hme hs hclosed fun o v r hv hs _ _ => hQ o v r hv hs

theorem serves_request {read : Json → Option α} :
    Serves ((request op params read).zoom recorder) := by
  refine .zoom_bind (.of_behaves (.read Undisturbed.refl _)) fun target => ?_
  cases target with
  | error f => exact .done _
  | ok id =>
    refine .zoom_bind (.of_behaves (.read Undisturbed.refl _)) fun limit => ?_
    refine .zoom_bind serves_send fun outcome => ?_
    cases outcome with
    | error f => exact .done _
    | ok j =>
      dsimp only
      split <;> exact .done _

theorem serves_takeCurrent : Serves (takeCurrent.zoom recorder) :=
  .of_behaves (.update fun _ => undisturbed_of_channels rfl rfl rfl)

theorem serves_kill (id : ChannelId) : Serves ((kill id).zoom recorder) :=
  .of_behaves (behaves_kill (Undisturbed.allowsCalm id))

theorem serves_launch : Serves (launch.zoom recorder) := by
  refine .of_behaves (.update fun s => ?_)
  split
  · exact .refl s
  · exact ⟨s.client.calm_connect _ _, rfl⟩

theorem serves_recruit {rest : Job α} (hrest : Serves (rest.zoom recorder)) :
    Serves (Task.zoom recorder do
      let reader ← Task.fork (listen id)
      onClient fun c => { c with reader := some reader }
      rest) := by
  intro waited me w r Q hme hs hclosed hQ i hi hunborn
  have hforked : Sound (w.cast i .reader) r := hs.born hunborn nofun
  have hrole : (w.cast i .reader).role i = .reader := World.role_cast_self _ _ _
  refine ⟨w.told, .reader, pact_isFair.own_refl _, isLive_reader, listen_ready hrole, ?_⟩
  have hsent : Sound (w.cast i .reader) (recorder.set
      { r.server with client := { r.server.client with reader := some i } } r) := by
    refine hforked.calm (Client.calm_of_channels rfl rfl) fun j hj => .inl ?_
    cases hj
    exact hrole
  refine (Task.honors_then (Task.zoom recorder (onClient fun c => { c with reader := some i }))
    (fun _ => rest.zoom recorder) Q).mpr (Task.honors_zoom_modify ?_)
  exact hrest false me _ _ Q ((w.role_cast_of_ne _ hi.symm).trans hme) hsent hclosed hQ

theorem serves_changing {body : Job α} (hbody : Serves (body.zoom recorder)) :
    Serves ((changing body).zoom recorder) :=
  .exclusive (fun _ _ => undisturbed_of_channels rfl rfl rfl) hbody

theorem serves_close (id : ChannelId) : Serves (Task.zoom recorder
    (onClient fun c => (c.abandon id).updateChannel id (·.failAll .terminated))) :=
  .noted (.closed id) trivial nofun fun _ => ⟨.closed, rfl⟩

theorem serves_stop : Serves (stop.zoom recorder) := by
  refine serves_changing (.zoom_bind (.onClient fun _ => undisturbed_of_channels rfl rfl rfl) fun _ => ?_)
  refine .zoom_bind serves_takeCurrent fun current => ?_
  extract_lets rest
  have hrest (x : Unit) : Serves ((rest x).zoom recorder) := by
    refine .zoom_bind serves_dropReader fun _ => .onClient fun s => undisturbed_of_channels ?_ ?_ ?_
    all_goals
      dsimp only [clientLens, Lens.modify]
      split <;> rfl
  cases current with
  | some id => exact .zoom_bind (serves_close id) fun _ => .zoom_bind (serves_kill id) hrest
  | none => exact hrest ()

theorem serves_start : Serves (start.zoom recorder) := by
  refine serves_changing (.zoom_bind (.of_behaves (.read Undisturbed.refl _)) fun isUp => ?_)
  cases isUp with
  | true => exact .done _
  | false =>
    have hquiet {f : Client → Client} (hf : ∀ c, (f c).channels = c.channels ∧
        (f c).nextRequest = c.nextRequest ∧ (f c).reader = c.reader) :
        Serves ((onClient f).zoom recorder) := by
      refine .onClient fun s => ?_
      obtain ⟨hchannels, hnext, hreader⟩ := hf s.client
      exact undisturbed_of_channels hchannels hnext hreader
    refine .zoom_bind (hquiet fun _ => ⟨rfl, rfl, rfl⟩) fun _ => .zoom_bind serves_dropReader fun _ => ?_
    refine .zoom_bind serves_takeCurrent fun old => ?_
    extract_lets launched
    have hlaunched (x : Unit) : Serves ((launched x).zoom recorder) := by
      refine .zoom_bind serves_launch fun outcome => ?_
      cases outcome with
      | error f => exact .zoom_bind (hquiet fun _ => ⟨rfl, rfl, rfl⟩) fun _ => .done _
      | ok id =>
        refine serves_recruit (.zoom_bind (.of_behaves (.read Undisturbed.refl _)) fun limit => ?_)
        refine .zoom_bind serves_send fun outcome => ?_
        cases outcome with
        | ok j => exact .zoom_bind (hquiet fun _ => ⟨rfl, rfl, rfl⟩) fun _ => .done _
        | error f =>
          refine .zoom_bind (serves_close id) fun _ => .zoom_bind (serves_kill id) fun _ => ?_
          refine .zoom_bind serves_dropReader fun _ => ?_
          exact .zoom_bind (hquiet fun _ => ⟨rfl, rfl, rfl⟩) fun _ => .done _
    cases old with
    | some id =>
      refine .zoom_bind (.noted (.replaced id) trivial nofun fun _ => ⟨.replaced, rfl⟩) fun _ => ?_
      exact .zoom_bind (serves_kill id) hlaunched
    | none => exact hlaunched ()

/-- Who asks is told what became of its request. -/
theorem serves_ask : Serves (ask op params limit) := by
  intro waited me w r Q hme hs hclosed hQ
  refine (Task.honorsFrom_bind _ _ _ (.inl rfl)).mpr fun start hstart => ?_
  have hstart : start = w.told.now := hstart
  refine (Task.honors_then _ _ _).mpr (Task.honors_read ?_)
  cases r.server.client.target with
  | error f => exact hQ _ w r hme hs
  | ok id =>
    refine (Task.honors_then _ _ _).mpr (Task.honors_read ?_)
    refine (Task.honors_then _ _ _).mpr (honors_send hme hs (hclosed.honors _) ?_)
    intro o v r' hv hs hfinished htimely
    refine (Task.honors_then _ _ _).mpr fun finish hfinish => ?_
    have hfinish : finish = v.told.now := hfinish
    refine (Task.honors_then _ _ _).mpr (Task.honors_modify (hQ o v _ hv (hs.reply hfinished ?_)))
    rw [hstart, hfinish]
    exact htimely

end LanguageServer.Server.Correlation
