import LanguageServer.Proofs.Task.Owners
import LanguageServer.Proofs.Workspace.Listings
import LanguageServer.Server.Documents
import Mathlib.Data.List.Forall2

/-! Calls that list the workspace while its roots are replaced, listings are forgotten and files come
and go. -/
namespace LanguageServer.Server.Scanning

open Machine

/-- A call that lists the workspace. -/
def scanning : Job Unit := scan.bind fun _ => .done ()

/-- What a scan does that has looked for the listing of a root. -/
def look (root : Path) (roots listed : List Path) :
    Option (List Path) → Job ((List Path × List Path) ⊕ List Path)
  | some found => return .inl (roots, listed ++ found)
  | none => do
    let found ← Task.read (·.around.files.sourcesBelow root)
    Task.giveWay
    timed workspaceLens fun now w => ((), w.keep now root found)
    return .inl (roots, listed ++ found)

/-- What a scan does with the roots that are left and the files listed so far. -/
def round : List Path × List Path → Job ((List Path × List Path) ⊕ List Path) :=
  fun (roots, listed) => do
    match roots with
    | [] => return .inr listed
    | root :: roots => (timed workspaceLens (Workspace.listing · root)).bind (look root roots listed)

/-- Where a scan waits: called and not begun; before the next of its roots, with what is listed so far;
or with a root read whose listing is not kept yet. -/
inductive Stop where
  | called
  | between (roots listed : List Path)
  | reading (root : Path) (roots listed found : List Path)

def finish (files : List Path) : Job Unit :=
  .act (fun _ => workspaceLens.lift (Workspace.publish files)) fun _ => .done ()

/-- What follows a round. -/
def again : (List Path × List Path) ⊕ List Path → Job Unit
  | .inl s => .loop s round finish
  | .inr files => finish files

namespace Stop

def task : Stop → Job Unit
  | .called => scanning
  | .between roots listed => .loop (roots, listed) round finish
  | .reading root roots listed found => .yield <| .act
      (fun now s => workspaceLens.lift (fun w => ((), w.keep (s.time now) root found)) s)
      fun _ => .loop (roots, listed ++ found) round finish

/-- Where a scan goes on that has looked for the listing of a root: a root without one is read. -/
def looked (s : Server) (root : Path) (roots listed : List Path) : Option (List Path) → Stop
  | some found => .between roots (listed ++ found)
  | none => .reading root roots listed (s.around.files.sourcesBelow root)

/-- What a scan does from one wait to the next. -/
def next (now : Instant) (s : Server) : Stop → Option Stop × Server
  | .called => (some (.between s.workspace.roots []), s)
  | .between [] listed => (none, workspaceLens.set (s.workspace.publish listed).2 s)
  | .between (root :: roots) listed =>
    let r := s.workspace.listing (s.time now) root
    (some (looked s root roots listed r.1), workspaceLens.set r.2 s)
  | .reading root roots listed found =>
    (some (.between roots (listed ++ found)),
      workspaceLens.set (s.workspace.keep (s.time now) root found) s)

/-- What is left of a scan. -/
def rest : Option Stop → Job Unit
  | some stop => stop.task
  | none => .done ()

theorem isDone_task (stop : Stop) : isDone stop.task = false := by cases stop <;> rfl

/-- A scan that is dropped leaves everything as it is. -/
theorem release_task (stop : Stop) (s : Server) : release stop.task s = s := by cases stop <;> rfl

theorem resume_task (now : Instant) (stop : Stop) (e : Effects Server) :
    resume now stop.task e =
      some ({ e with state := (stop.next now e.state).2 }, rest (stop.next now e.state).1) := by
  cases stop with
  | called => rfl
  | between roots listed =>
    cases roots with
    | nil => rfl
    | cons root roots =>
      have hround : resume now (Stop.between (root :: roots) listed).task e =
          some (advance now ((round (root :: roots, listed)).bind again) e) := by
        rw [task, resume]
        congr 3
        funext x
        cases x <;> rfl
      have hlook (r) (hr : e.state.workspace.listing (e.state.time now) root = r) :
          advance now ((round (root :: roots, listed)).bind again) e =
            advance now ((look root roots listed r.1).bind again)
              { e with state := workspaceLens.set r.2 e.state } := hr ▸ rfl
      rw [hround, next]
      generalize hr : e.state.workspace.listing (e.state.time now) root = r
      obtain ⟨found?, w⟩ := r
      rw [hlook _ hr]
      cases found? <;> rfl
  | reading root roots listed found => rfl

end Stop

/-- What is said to a server about its workspace. -/
inductive Event where
  | replaced (roots : List Path)
  | invalidated (root : Path)
  | changed (u : Url)

def Event.apply : Event → Server → Server
  | .replaced roots => workspaceLens.modify (Workspace.setRoots roots)
  | .invalidated root => workspaceLens.modify (Workspace.invalidate root)
  | .changed u => fileChanged u

/-- To list the workspace with new roots is to be told of them, and to list it. -/
theorem resume_scanRoots (now : Instant) (roots : List Path) (e : Effects Server) :
    resume now ((scanRoots roots).bind fun _ => .done ()) e =
      resume now scanning { e with state := (Event.replaced roots).apply e.state } := rfl

/-- Why there is a next moment: a scan is called, goes on or is dropped where it waits, the server is
told something, time passes, or something else than the workspace changes, such as its files. -/
inductive Cause where
  | called
  | moved (id : TaskId)
  | dropped (id : TaskId)
  | told (e : Event)
  | passed (span : Duration)
  | beside (s : Server)

def Cause.apply : Cause → Machine Server → Option (Machine Server)
  | .called, m => some (m.spawn scanning)
  | .moved id, m => m.step? id
  | .dropped id, m => some { m with tasks := m.tasks.filter (·.1 ≠ id) }
  | .told e, m => some { m with state := e.apply m.state }
  | .passed span, m => some { m with now := m.now.after span }
  | .beside s, m => some { m with state := workspaceLens.set m.state.workspace s }

/-- A machine of scans, and what it has just come from. -/
structure Moment where
  cause : Option Cause
  machine : Machine Server

/-- What may have happened to a server that holds no listings at first, the last moment first. -/
inductive Run : List Moment → Prop
  | start {s : Server} : (∀ root, s.workspace.held root = none) → Run [⟨none, Machine.start s⟩]
  | next {m : Moment} {older : List Moment} {n : Machine Server} (c : Cause) : Run (m :: older) →
      c.apply m.machine = some n → Run (⟨some c, n⟩ :: m :: older)

namespace Moment

def workspace (m : Moment) : Workspace := m.machine.state.workspace

/-- What `root` lists there is to be listed anew. -/
def Spoils (m : Moment) (root : Path) : Prop :=
  match m.cause with
  | some (.told (.replaced _)) => True
  | some (.told (.invalidated r)) => root.same r
  | some (.told (.changed u)) => ∃ path r, u.toFilePath? = some path ∧ r ∈ m.workspace.roots ∧
      path.startsWith r ∧ root.same r
  | _ => False

/-- A scan has read this of a root, and has yet to keep it. -/
def Reads (m : Moment) (root : Path) (found : List Path) : Prop :=
  ∃ id r roots listed, root.same r ∧ (id, (Stop.reading r roots listed found).task) ∈ m.machine.tasks

/-- A scan reads a root, and finds the files that there were at the moment before. -/
def Finds (n : Moment) (root : Path) (found : List Path) (m : Moment) : Prop :=
  ∃ id r roots listed, n.cause = some (.moved id) ∧ root.same r ∧
    found = m.machine.state.around.files.sourcesBelow r ∧
    (id, (Stop.reading r roots listed found).task) ∈ n.machine.tasks

/-- A scan begins with the roots that there are. -/
def Begins (n : Moment) (id : TaskId) (m : Moment) : Prop :=
  n.cause = some (.moved id) ∧ (id, scanning) ∈ m.machine.tasks

/-- A scan ends, and publishes what it has listed. -/
def Ends (n : Moment) (id : TaskId) : Prop :=
  n.cause = some (.moved id) ∧ ∀ t, (id, t) ∉ n.machine.tasks

end Moment

variable {h h' : List Moment} {m n : Moment} {root r : Path} {found : List Path} {id : TaskId}

/-- A root was read, and whenever it was to be listed anew since, a scan had found just this in it and
had yet to keep it. -/
def Taken (h : List Moment) (root : Path) (found : List Path) : Prop :=
  ∃ p q before, p :: q :: before <:+ h ∧ p.Finds root found q ∧
    ∀ m older, m :: older <:+ h → p :: q :: before <:+ older → m.Spoils root → m.Reads root found

theorem Moment.Finds.taken {p q : Moment} (hp : p.Finds root found q) (before : List Moment) :
    Taken (p :: q :: before) root found := by
  refine ⟨p, q, before, List.suffix_rfl, hp, fun m older hm ho => ?_⟩
  have hlonger : older.length + 1 ≤ (p :: q :: before).length := hm.length_le
  exact absurd ho.length_le (Nat.not_le.mpr hlonger)

theorem Taken.cons (ht : Taken h root found) (hn : n.Spoils root → n.Reads root found) :
    Taken (n :: h) root found := by
  obtain ⟨p, q, before, hp, hfinds, hsince⟩ := ht
  refine ⟨p, q, before, hp.trans (List.suffix_cons _ _), hfinds, fun m older hm ho => ?_⟩
  obtain hm | hm := List.suffix_cons_iff.mp hm
  · cases hm
    exact hn
  · exact hsince m older hm ho

/-- How far a scan has come since it began with the roots that there were: of those that it is past, in
order, the listings `lists`, each taken and not spoiled when the scan came to it. -/
def Listed (h : List Moment) (id : TaskId) (todo : List Path) (lists : List (List Path)) : Prop :=
  ∃ began m older past, began :: m :: older <:+ h ∧ began.Begins id m ∧
    began.workspace.roots = past ++ todo ∧
    List.Forall₂ (fun root l => ∃ look, began :: m :: older <:+ look ∧ look <:+ h ∧ Taken look root l)
      past lists

/-- The files are those of the roots that the scan began with, by listings that it came to. -/
def Reflects (h : List Moment) (id : TaskId) (files : List Path) : Prop :=
  ∃ lists, Listed h id [] lists ∧ Workspace.IsUnion lists files

theorem Listed.cons {todo : List Path} {lists : List (List Path)} (hl : Listed h id todo lists)
    (n : Moment) : Listed (n :: h) id todo lists := by
  obtain ⟨began, m, older, past, hbegan, hbegins, hroots, hlists⟩ := hl
  refine ⟨began, m, older, past, hbegan.trans (List.suffix_cons _ _), hbegins, hroots, ?_⟩
  exact hlists.imp fun _ _ ⟨look, hlater, hlook, ht⟩ =>
    ⟨look, hlater, hlook.trans (List.suffix_cons _ _), ht⟩

/-- A scan comes past a root with a listing of it. -/
theorem Listed.past {roots : List Path} {lists : List (List Path)}
    (hl : Listed h id (root :: roots) lists) (ht : Taken h root found) :
    Listed h id roots (lists ++ [found]) := by
  obtain ⟨began, m, older, past, hbegan, hbegins, hroots, hlists⟩ := hl
  refine ⟨began, m, older, past ++ [root], hbegan, hbegins, by simp [hroots], ?_⟩
  exact List.rel_append hlists (.cons ⟨h, hbegan, List.suffix_rfl, ht⟩ .nil)

/-- What a scan goes by where it waits. -/
def Stop.Fits (h : List Moment) (id : TaskId) : Stop → Prop
  | .called => True
  | .between roots listed => ∃ lists, Listed h id roots lists ∧ lists.flatten = listed
  | .reading root roots listed found => Taken h root found ∧
      ∃ lists, Listed h id (root :: roots) lists ∧ lists.flatten = listed

/-- What is true at every moment: a listing that is held counts, and every scan knows what it needs. -/
structure Kept (m : Moment) (older : List Moment) : Prop where
  held : ∀ root e, m.workspace.held root = some e → Taken (m :: older) root e.value
  stops : ∀ p ∈ m.machine.tasks, ∃ stop : Stop, p.2 = stop.task ∧ stop.Fits (m :: older) p.1

structure Moves (m : Machine Server) (id : TaskId) (stop : Stop) (n : Machine Server) : Prop where
  found : (id, stop.task) ∈ m.tasks
  state : n.state = (stop.next m.now m.state).2
  tasks : ∀ p, p ∈ n.tasks ↔ p ∈ m.tasks ∧ p.1 ≠ id ∨
    ∃ next, (stop.next m.now m.state).1 = some next ∧ p = (id, next.task)

theorem moves_of_step? {m n : Machine Server} {P : TaskId → Stop → Prop}
    (hm : ∀ p ∈ m.tasks, ∃ stop : Stop, p.2 = stop.task ∧ P p.1 stop) (h : m.step? id = some n) :
    ∃ stop, P id stop ∧ Moves m id stop n := by
  obtain ⟨t, r, hlookup, hresume, rfl⟩ := step?_eq_some.mp h
  have hfound := mem_of_lookup hlookup
  obtain ⟨stop, rfl, hstop⟩ := hm _ hfound
  rw [Stop.resume_task] at hresume
  cases hresume
  refine ⟨stop, hstop, hfound, state_settle rfl, fun p => ?_⟩
  rw [mem_settle (by simp [effects])]
  cases hnext : (stop.next m.now m.state).1 with
  | none => simp [effects, hnext, Stop.rest, isDone]
  | some next => simp [effects, hnext, Stop.rest, Stop.isDone_task]

/-- A scan that has read a root may keep what it read, whatever happens meanwhile. -/
theorem Stop.Fits.cons {stop : Stop} (hf : stop.Fits h id) (hn : (id, stop.task) ∈ n.machine.tasks) :
    stop.Fits (n :: h) id := by
  cases stop with
  | called => trivial
  | between roots listed =>
    obtain ⟨lists, hl, hlisted⟩ := hf
    exact ⟨lists, hl.cons n, hlisted⟩
  | reading root roots listed found =>
    obtain ⟨ht, lists, hl, hlisted⟩ := hf
    have hreads : n.Reads root found := ⟨id, root, roots, listed, Path.same_iff.mpr rfl, hn⟩
    exact ⟨ht.cons fun _ => hreads, lists, hl.cons n, hlisted⟩

/-- It does not matter how the root is spelt. -/
theorem Taken.of_same (ht : Taken h root found) (hr : root.same r) : Taken h r found := by
  have hr := Path.same_iff.mp hr
  have hsame {x : Path} (hx : root.same x) : r.same x := by rwa [Path.same, ← hr]
  obtain ⟨p, q, before, hp, ⟨id, x, roots, listed, hcause, hx, hfound⟩, hsince⟩ := ht
  refine ⟨p, q, before, hp, ⟨id, x, roots, listed, hcause, hsame hx, hfound⟩,
    fun m older hm ho hspoils => ?_⟩
  have hspoils : m.Spoils root := by simpa only [Moment.Spoils, Path.same, hr] using hspoils
  obtain ⟨id, x, roots, listed, hx, hmem⟩ := hsince m older hm ho hspoils
  exact ⟨id, x, roots, listed, hsame hx, hmem⟩

section Events

variable {s : Server} {e : Timed.Stamped (List Path)}

theorem held_foldl_invalidate {roots : List Path} {w : Workspace}
    (h : (roots.foldl (fun w r => w.invalidate r) w).held root = some e) :
    w.held root = some e ∧ ∀ r ∈ roots, ¬ root.same r := by
  induction roots generalizing w with
  | nil => exact ⟨h, nofun⟩
  | cons r roots ih =>
    obtain ⟨hheld, hroots⟩ := ih h
    rw [Workspace.held_invalidate] at hheld
    split at hheld
    · cases hheld
    · next hr => exact ⟨hheld, List.forall_mem_cons.mpr ⟨hr, hroots⟩⟩

theorem roots_foldl_invalidate (roots : List Path) (w : Workspace) :
    (roots.foldl (fun w r => w.invalidate r) w).roots = w.roots ∧
      (roots.foldl (fun w r => w.invalidate r) w).files = w.files := by
  induction roots generalizing w with
  | nil => exact ⟨rfl, rfl⟩
  | cons r roots ih => exact ih (w.invalidate r)

theorem workspace_fileChanged (u : Url) (s : Server) : (fileChanged u s).workspace =
    match u.toFilePath? with
    | some path =>
      (s.workspace.roots.filter path.startsWith).foldl (fun w r => w.invalidate r) s.workspace
    | none => s.workspace := rfl

theorem files_apply (e : Event) (s : Server) : (e.apply s).workspace.files = s.workspace.files := by
  cases e with
  | replaced roots => rfl
  | invalidated root => rfl
  | changed u =>
    rw [Event.apply, workspace_fileChanged]
    split
    · exact (roots_foldl_invalidate _ _).2
    · rfl

/-- What is held after something was said was held before, and is not of what is to be listed anew. -/
theorem held_apply {ev : Event} (hmachine : n.machine.state = ev.apply s)
    (hcause : n.cause = some (.told ev)) (h : n.workspace.held root = some e) :
    s.workspace.held root = some e ∧ ¬ n.Spoils root := by
  rw [Moment.workspace, hmachine] at h
  cases ev with
  | replaced roots => cases (Workspace.held_setRoots roots).symm.trans h
  | invalidated r =>
    have h := Workspace.held_invalidate.symm.trans h
    split at h
    · cases h
    · next hr => exact ⟨h, by rwa [Moment.Spoils, hcause]⟩
  | changed u =>
    simp only [Moment.Spoils, hcause, Moment.workspace, hmachine, Event.apply]
    rw [Event.apply, workspace_fileChanged] at h
    rw [workspace_fileChanged]
    split at h
    · next path hpath =>
      obtain ⟨hheld, hroots⟩ := held_foldl_invalidate h
      refine ⟨hheld, ?_⟩
      rintro ⟨path', r, hpath', hr, hstarts, hsame⟩
      obtain rfl := Option.some.inj (hpath.symm.trans hpath')
      rw [(roots_foldl_invalidate _ _).1] at hr
      exact hroots r (List.mem_filter.mpr ⟨hr, hstarts⟩) hsame
    · next hpath => exact ⟨h, by simp [hpath]⟩

end Events

namespace Kept

variable {older : List Moment} {c : Cause}

theorem start {s : Server} (h : ∀ root, s.workspace.held root = none) :
    Kept ⟨none, Machine.start s⟩ [] where
  held root e he := by cases (h root).symm.trans he
  stops _ hp := absurd hp List.not_mem_nil

/-- The listings stay as they are, and at most a scan is called. -/
theorem idle (hk : Kept m older) (hn : n.workspace = m.workspace) (hspoils : ∀ root, ¬ n.Spoils root)
    (htasks : ∀ p ∈ n.machine.tasks, p ∈ m.machine.tasks ∨ p.2 = scanning) : Kept n (m :: older) where
  held root e he := (hk.held root e (hn ▸ he)).cons fun h => absurd h (hspoils root)
  stops p hp := by
    obtain hold | hnew := htasks p hp
    · obtain ⟨stop, hstop, hfits⟩ := hk.stops p hold
      exact ⟨stop, hstop, hfits.cons (hstop ▸ hp)⟩
    · exact ⟨.called, hnew, trivial⟩

theorem told (hk : Kept m older) {e : Event} (hcause : n.cause = some (.told e))
    (hmachine : n.machine = { m.machine with state := e.apply m.machine.state }) :
    Kept n (m :: older) where
  held root x hx := by
    obtain ⟨hheld, hspoils⟩ := held_apply (congrArg (·.state) hmachine) hcause hx
    exact (hk.held root x hheld).cons fun h => absurd h hspoils
  stops p hp := by
    have hold : p ∈ m.machine.tasks := by rwa [hmachine] at hp
    obtain ⟨stop, hstop, hfits⟩ := hk.stops p hold
    exact ⟨stop, hstop, hfits.cons (hstop ▸ hp)⟩

theorem held_next (hk : Kept m older) {stop : Stop} (hf : stop.Fits (m :: older) id) {now : Instant}
    {e : Timed.Stamped (List Path)}
    (h : (stop.next now m.machine.state).2.workspace.held root = some e) :
    Taken (m :: older) root e.value := by
  cases stop with
  | called => exact hk.held root e h
  | between roots listed =>
    cases roots with
    | nil => exact hk.held root e (Workspace.held_publish.symm.trans h)
    | cons r roots => exact hk.held root e (Workspace.held_listing h)
  | reading r roots listed found =>
    have h := Workspace.held_keep.symm.trans h
    split at h
    · next hr =>
      cases h
      exact hf.1.of_same hr
    · exact hk.held root e h

theorem fits_next (hk : Kept m older) {stop next : Stop} (hf : stop.Fits (m :: older) id)
    (hcause : n.cause = some (.moved id)) (hm : Moves m.machine id stop n.machine)
    (h : (stop.next m.machine.now m.machine.state).1 = some next) : next.Fits (n :: m :: older) id := by
  have hspoils (root : Path) : ¬ n.Spoils root := by simp [Moment.Spoils, hcause]
  cases stop with
  | called =>
    cases h
    have hroots : n.workspace.roots = m.workspace.roots := congrArg (·.workspace.roots) hm.state
    exact ⟨[], ⟨n, m, older, [], List.suffix_rfl, ⟨hcause, hm.found⟩, hroots, .nil⟩, rfl⟩
  | between roots listed =>
    obtain ⟨lists, hl, rfl⟩ := hf
    cases roots with
    | nil => cases h
    | cons root roots =>
      obtain rfl := Option.some.inj h
      cases hlisting :
          (m.machine.state.workspace.listing (m.machine.state.time m.machine.now) root).1 with
      | some found =>
        obtain ⟨e, he, rfl⟩ := Workspace.held_of_listing hlisting
        exact ⟨lists ++ [e.value], (hl.past (hk.held root e he)).cons n, by simp⟩
      | none =>
        have hfinds : n.Finds root (m.machine.state.around.files.sourcesBelow root) m :=
          ⟨id, root, roots, _, hcause, Path.same_iff.mpr rfl, rfl,
            (hm.tasks _).mpr (.inr ⟨_, congrArg (some <| Stop.looked _ root roots _ ·) hlisting, rfl⟩)⟩
        exact ⟨hfinds.taken older, lists, hl.cons n, rfl⟩
  | reading root roots listed found =>
    cases h
    obtain ⟨ht, lists, hl, rfl⟩ := hf
    exact ⟨lists ++ [found], (hl.past ht).cons n, by simp⟩

theorem moved (hk : Kept m older) {stop : Stop} (hf : stop.Fits (m :: older) id)
    (hcause : n.cause = some (.moved id)) (hm : Moves m.machine id stop n.machine) :
    Kept n (m :: older) where
  held root e he := by
    rw [Moment.workspace, hm.state] at he
    exact (hk.held_next hf he).cons fun h => by simp [Moment.Spoils, hcause] at h
  stops p hp := by
    obtain ⟨hold, -⟩ | ⟨next, hnext, rfl⟩ := (hm.tasks p).mp hp
    · obtain ⟨stop, hstop, hfits⟩ := hk.stops p hold
      exact ⟨stop, hstop, hfits.cons (hstop ▸ hp)⟩
    · exact ⟨next, rfl, hk.fits_next hf hcause hm hnext⟩

theorem next (hk : Kept m older) {n : Machine Server} (h : c.apply m.machine = some n) :
    Kept ⟨some c, n⟩ (m :: older) := by
  cases c with
  | called =>
    cases h
    refine hk.idle rfl (fun _ => id) fun p hp => (List.mem_append.mp hp).imp_right fun hp => ?_
    rw [List.mem_singleton.mp hp]
  | moved i =>
    obtain ⟨stop, hf, hm⟩ := moves_of_step? hk.stops h
    exact hk.moved hf rfl hm
  | dropped i =>
    cases h
    exact hk.idle rfl (fun _ => id) fun p hp => .inl (List.mem_filter.mp hp).1
  | told e =>
    cases h
    exact hk.told rfl rfl
  | passed span =>
    cases h
    exact hk.idle rfl (fun _ => id) fun p hp => .inl hp
  | beside s =>
    cases h
    exact hk.idle rfl (fun _ => id) fun p hp => .inl hp

end Kept

theorem Run.kept (h : Run (m :: h')) : Kept m h' := by
  generalize hl : m :: h' = l at h
  induction h generalizing m h' with
  | start hs =>
    cases hl
    exact .start hs
  | next c _ hc ih =>
    cases hl
    exact (ih rfl).next hc

/-- A scan that ends publishes what it has listed; nothing else changes the files. -/
theorem Stop.files_next (stop : Stop) (now : Instant) (s : Server) :
    match (stop.next now s).1 with
    | some _ => (stop.next now s).2.workspace.files = s.workspace.files
    | none => ∃ listed, stop = .between [] listed ∧
        (stop.next now s).2.workspace = (s.workspace.publish listed).2 := by
  cases stop with
  | called => rfl
  | between roots listed =>
    cases roots with
    | nil => exact ⟨listed, rfl, rfl⟩
    | cons root roots => rfl
  | reading root roots listed found => rfl

/-- The files of the workspace change when a scan ends, to what that scan has listed. -/
theorem Run.files_published {older : List Moment} (h : Run (n :: m :: older)) :
    (∃ id, n.Ends id ∧ Reflects (m :: older) id n.workspace.files) ∨
      (∀ id, ¬ n.Ends id) ∧ n.workspace.files = m.workspace.files := by
  cases h with
  | @next _ _ n c hrun hc =>
    have hk := hrun.kept
    cases c with
    | moved id =>
      obtain ⟨stop, hf, hm⟩ := moves_of_step? hk.stops hc
      have hfiles := stop.files_next m.machine.now m.machine.state
      cases hnext : (stop.next m.machine.now m.machine.state).1 with
      | some next =>
        rw [hnext] at hfiles
        refine .inr ⟨?_, (congrArg (·.workspace.files) hm.state).trans hfiles⟩
        rintro i ⟨hcause, hgone⟩
        cases hcause
        exact hgone next.task ((hm.tasks _).mpr (.inr ⟨next, hnext, rfl⟩))
      | none =>
        rw [hnext] at hfiles
        obtain ⟨listed, rfl, hpublish⟩ := hfiles
        obtain ⟨lists, hl, rfl⟩ := hf
        refine .inl ⟨id, ⟨rfl, fun t ht => ?_⟩, lists, hl, ?_⟩
        · obtain ⟨-, hne⟩ | ⟨next, hsome, -⟩ := (hm.tasks _).mp ht
          · exact hne rfl
          · cases hnext.symm.trans hsome
        · rw [Moment.workspace, hm.state, hpublish]
          exact Workspace.isUnion_publish lists _
    | told event =>
      cases hc
      exact .inr ⟨fun i hends => (nomatch hends.1), files_apply _ _⟩
    | called | dropped | passed | beside =>
      cases hc
      exact .inr ⟨fun i hends => (nomatch hends.1), rfl⟩

section Outrun

/-- What happens to a server that certain things happen to, the last of them first. -/
def history (s : Server) : List Cause → Option (List Moment)
  | [] => some [⟨none, Machine.start s⟩]
  | c :: causes =>
    match history s causes with
    | some (m :: older) => (c.apply m.machine).map fun n => ⟨some c, n⟩ :: m :: older
    | _ => none

theorem run_of_history {s : Server} (hs : ∀ root, s.workspace.held root = none) {causes : List Cause}
    (h : history s causes = some h') : Run h' := by
  induction causes generalizing h' with
  | nil =>
    cases h
    exact .start hs
  | cons c causes ih =>
    rw [history] at h
    split at h
    · next m older hbefore =>
      obtain ⟨n, hn, rfl⟩ := Option.map_eq_some_iff.mp h
      exact .next c (ih hbefore) hn
    · cases h

/-- One root with one file. -/
def hall : Server :=
  workspaceLens.modify (Workspace.setRoots [⟨"/w"⟩])
    (.new ⟨⟨⟨[(["w"], .directory), (["w", "a.pike"], .file [] 0)]⟩, []⟩, [], .scripted none, [], 0,
      none⟩ {})

/-- While the root is read, no root is left, and a second scan lists none of them. -/
def outrun : List Cause :=
  [.moved 0, .moved 0, .moved 1, .moved 1, .called, .told (.replaced []), .moved 0, .moved 0, .called]

/-- The files before and after the last of them, the roots, and how many scans there still are. -/
def outcome? : Option (List Path × List Path × List Path × Nat) :=
  match history hall outrun with
  | some (n :: m :: _) =>
    some (m.workspace.files, n.workspace.files, n.workspace.roots, n.machine.tasks.length)
  | _ => none

/-- The first scan ends last, and what it read of a root that is none any more is published. -/
theorem Run.files_published_outrun : ∃ n m older, Run (n :: m :: older) ∧
    (∃ id, n.Ends id ∧ Reflects (m :: older) id n.workspace.files) ∧
    m.workspace.files = [] ∧ n.workspace.files = [⟨"/w/a.pike"⟩] ∧
    n.workspace.roots = [] ∧ n.machine.tasks = [] := by
  have houtcome : outcome? = some ([], [⟨"/w/a.pike"⟩], [], 0) := by decide +kernel
  rw [outcome?] at houtcome
  split at houtcome
  · next n m older hhistory =>
    simp only [Option.some.injEq, Prod.mk.injEq, List.length_eq_zero_iff] at houtcome
    obtain ⟨hbefore, hafter, hroots, htasks⟩ := houtcome
    have hrun : Run (n :: m :: older) := run_of_history (fun _ => rfl) hhistory
    have hnew : n.workspace.files ≠ m.workspace.files := by
      rw [hbefore, hafter]
      exact List.cons_ne_nil _ _
    exact ⟨n, m, older, hrun, hrun.files_published.resolve_right fun h => hnew h.2, hbefore, hafter,
      hroots, htasks⟩
  · cases houtcome

end Outrun

end LanguageServer.Server.Scanning
