import LanguageServer.Editor.Dispatch
import LanguageServer.Proofs.Editor.Checks
import LanguageServer.Proofs.Server.Sparing

/-! What an editor may ask and tell is what the runs of a session are made of: a notice, a request for
one analysis, or something that is done beside. -/
namespace LanguageServer.Editor

variable {α β : Type}

theorem aside_set {s : Session} {p : Server} (hp : s.server.Spares p) :
    Aside s (Session.serverLens.set p s) :=
  .silent ⟨hp.documents, hp.analyses, rfl, rfl⟩ hp.files rfl

/-- What spares documents and analyses on the server is done beside. -/
theorem aside_onServer {t : Server.Job α} (ht : t.Keeps Server.Spares) : (onServer t).Keeps Aside :=
  Task.Keeps.bind (Task.keeps_modify fun _ => .serves) fun _ => ht.zoom fun _ _ hp => aside_set hp

theorem aside_loadConfiguration : loadConfiguration.Keeps Aside := by
  refine Task.Keeps.bind (aside_ask (by decide) _) fun answer => Task.keeps_modify fun s => ?_
  split
  · exact .silent ⟨rfl, rfl, rfl, rfl⟩ rfl rfl
  · exact .refl s

theorem aside_watch : watch.Keeps Aside := by
  refine Task.Keeps.bind (aside_onServer (Server.spares_read _)) fun seen => ?_
  refine Task.Keeps.bind ⟨⟨fun seen => ?_, fun _ => trivial⟩, fun _ => trivial⟩ fun _ => trivial
  refine Task.Keeps.bind (Task.keeps_await fun s e s' hs => ?_) fun e => ?_
  · obtain ⟨_, -, heq⟩ := Option.map_eq_some_iff.mp hs
    cases heq
    exact .refl s
  · cases e with
    | crashed _ => exact Task.Keeps.bind (aside_tell (by decide) _) fun _ => trivial
    | _ => trivial

theorem aside_warmUp : warmUp.Keeps Aside := by
  refine Task.Keeps.bind (Task.keeps_read .refl _) fun roots => ?_
  refine Task.Keeps.bind (aside_onServer Server.keeps_ensureStarted) fun started => ?_
  cases started with
  | error f => exact aside_tell (by decide) _
  | ok _ => exact Task.Keeps.bind (aside_onServer (Server.spares_scanRoots roots)) fun _ => trivial

theorem aside_ready : ready.Keeps Aside := by
  refine Task.Keeps.bind aside_loadConfiguration fun _ => ?_
  refine Task.Keeps.bind (aside_ask (by decide) _) fun _ => Task.Keeps.bind aside_watch fun _ => ?_
  refine Task.Keeps.bind ⟨aside_warmUp, fun _ => trivial⟩ fun _ => aside_tell (by decide) _

/-- A request: for the analysis of a document at first, or for what is done beside. -/
inductive Asks : Action α → Prop
  | beside {t : Action α} : t.Keeps Aside → Asks t
  | analysis (u : Url) {k : Except Failure (Option Analysis) → Action α} : (∀ r, (k r).Keeps Aside) →
    Asks ((onServer (Server.analyze u)).bind k)

/-- An answer is made of what was asked. -/
theorem Asks.bind {t : Action α} (ht : Asks t) {k : α → Action β} (hk : ∀ a, (k a).Keeps Aside) :
    Asks (t.bind k) := by
  cases ht with
  | beside ht => exact .beside (Task.Keeps.bind ht hk)
  | analysis u hk' =>
    rw [Task.bind_assoc]
    exact .analysis u fun r => Task.Keeps.bind (hk' r) hk

theorem asks_analyze (u : Url) (f : Except Failure (Option Analysis) → α) :
    Asks (f <$> onServer (Server.analyze u)) := .analysis u fun _ => trivial

theorem asks_onServer {t : Server.Job α} (ht : t.Keeps Server.Spares) (f : α → β) :
    Asks (f <$> onServer t) := .beside (Task.Keeps.bind (aside_onServer ht) fun _ => trivial)

theorem asks_outline (u : Url) : Asks (outline u) := .analysis u fun _ => trivial

theorem asks_links (u : Url) : Asks (links u) :=
  asks_onServer (Server.spares_imports Server.spare_process u) _

/-- What the server does with an analysis, it does beside. -/
theorem asks_analyze_then (u : Url) {k : Except Failure (Option Analysis) → Server.Job β}
    (hk : ∀ r, (k r).Keeps Server.Spares) (f : β → α) :
    Asks (f <$> onServer (Server.analyze u >>= k)) := by
  have hthen : onServer (Server.analyze u >>= k) =
      (onServer (Server.analyze u)).bind fun r => (k r).zoom Session.serverLens := by
    simp only [onServer, Task.zoom_then]
    rfl
  have hasks : Asks (onServer (Server.analyze u >>= k)) := by
    rw [hthen]
    exact .analysis u fun r => (hk r).zoom fun _ _ hp => aside_set hp
  exact hasks.bind fun _ => trivial

theorem asks_prepare (u : Url) (p : Position) : Asks (prepare u p) := by
  unfold prepare Server.prepare
  refine asks_analyze_then u (fun r => ?_) _
  match r with
  | .error f => trivial
  | .ok none => trivial
  | .ok (some _) =>
    exact Task.Keeps.bind (Server.spares_learnImports u) fun _ =>
      Task.Keeps.bind (Server.spares_consult _ _) fun _ => trivial

/-- A notification: a notice, or what is done beside. -/
inductive Tells : Action Unit → Prop
  | beside {t : Action Unit} : t.Keeps Aside → Tells t
  | notice (x : Notice) : Tells (x.handle Server.compile)

/-- A request whose parameters can be read does what is read of them. -/
theorem asks_map {x : Option β} {f : β → Action α} {t : Action α} (ht : x.map f = some t)
    (hf : ∀ b, Asks (f b)) : Asks t := by
  obtain ⟨b, -, rfl⟩ := Option.map_eq_some_iff.mp ht
  exact hf b

theorem tells_map {x : Option β} {f : β → Action Unit} {t : Action Unit} (ht : x.map f = some t)
    (hf : ∀ b, Tells (f b)) : Tells t := by
  obtain ⟨b, -, rfl⟩ := Option.map_eq_some_iff.mp ht
  exact hf b

theorem asks_request {method : String} {read : Json → Option (Action Json)}
    (hmethod : service? method = some (.request read)) {j : Json} {t : Action Json}
    (ht : read j = some t) : Asks t := by
  unfold service? at hmethod
  split at hmethod
  case h_17 =>
    split at hmethod
    · simp only [Option.some.injEq, reduceCtorEq] at hmethod
    · obtain ⟨form, -, heq⟩ := Option.map_eq_some_iff.mp hmethod
      cases heq
  all_goals cases hmethod
  case h_1 => exact asks_map ht fun _ => asks_analyze _ _
  case h_2 => exact asks_map ht asks_outline
  case h_3 => exact asks_map ht asks_links
  case h_4 => exact asks_map ht fun _ => asks_prepare _ _
  case h_5 => exact asks_map ht fun _ => asks_prepare _ _
  case h_6 => exact asks_map ht fun i => asks_onServer (Server.spares_incoming i) _
  case h_7 => exact asks_map ht fun i => asks_onServer (Server.spares_outgoing i) _
  case h_8 => exact asks_map ht fun i => asks_onServer (Server.spares_supertypes i) _
  case h_9 => exact asks_map ht fun i => asks_onServer (Server.spares_subtypes i) _

theorem tells_notification {method : String} {read : Json → Option (Action Unit)}
    (hmethod : service? method = some (.notification read)) {j : Json} {t : Action Unit}
    (ht : read j = some t) : Tells t := by
  unfold service? at hmethod
  split at hmethod
  case h_17 =>
    split at hmethod
    · cases Service.notification.inj (Option.some.inj hmethod)
      cases ht
      exact .beside trivial
    · obtain ⟨form, -, heq⟩ := Option.map_eq_some_iff.mp hmethod
      cases heq
  all_goals cases hmethod
  case h_10 => exact tells_map ht fun _ => .beside aside_ready
  case h_11 => exact tells_map ht fun _ => .notice (.opened _ _ _)
  case h_12 => exact tells_map ht fun _ => .notice (.changed _ _ _)
  case h_13 => exact tells_map ht fun u => .notice (.saved u)
  case h_14 => exact tells_map ht fun u => .notice (.closed u)
  case h_15 => exact tells_map ht fun _ => .beside aside_loadConfiguration
  case h_16 => exact tells_map ht fun us => .notice (.filesChanged us)

section Run

variable {h : List Moment} {m : Machine Session} (hr : Run Server.compile h m)
include hr

theorem Run.asks {t : Action Unit} (ht : Asks t) : Run Server.compile h (m.spawn t) := by
  cases ht with
  | beside ht => exact hr.beside ht
  | analysis u hk => exact hr.request u hk

/-- Any request that is served may come, and its answer may be handed on. -/
theorem Run.serves_request {method : String} {read : Json → Option (Action Json)}
    (hmethod : service? method = some (.request read)) {j : Json} {t : Action Json}
    (ht : read j = some t) {k : Json → Action Unit} (hk : ∀ answer, (k answer).Keeps Aside) :
    Run Server.compile h (m.spawn (t.bind k)) := hr.asks ((asks_request hmethod ht).bind hk)

/-- So may any notification, unless it is a notice. -/
theorem Run.serves_notification {method : String} {read : Json → Option (Action Unit)}
    (hmethod : service? method = some (.notification read)) {j : Json} {t : Action Unit}
    (ht : read j = some t) :
    (∃ x : Notice, t = x.handle Server.compile) ∨ Run Server.compile h (m.spawn t) := by
  cases tells_notification hmethod ht with
  | beside ht => exact .inr (hr.beside ht)
  | notice x => exact .inl ⟨x, rfl⟩

end Run
end LanguageServer.Editor
