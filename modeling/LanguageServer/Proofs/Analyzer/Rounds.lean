import LanguageServer.Analyzer.Client

/-! What is told of one process after another: that it started, that it crashed if it did, and that it was
stopped if it was. -/
namespace LanguageServer.Analyzer

/-- An event and the channel that it is about. -/
abbrev Notice := Option ChannelId × Event

/-- What is told of one process. -/
structure Round where
  channel : ChannelId
  pid : Option UInt32
  crash : Option (Option Int)
  isStopped : Bool

namespace Round

def notices (r : Round) : List Notice :=
  (some r.channel, .started r.pid) :: (r.crash.map fun code => (some r.channel, .crashed code)).toList ++
    if r.isStopped then [(some r.channel, .stopped)] else []

/-- What has been told of a process ends with the event. -/
def Ends (r : Round) : Event → Prop
  | .started pid => r.pid = pid ∧ r.crash = none ∧ r.isStopped = false
  | .crashed _ => r.isStopped = false
  | .stopped => True

end Round

/-- What has been told, latest first, is told of one process after another, each on a later channel. -/
inductive Orderly : List Notice → Prop
  | nil : Orderly []
  | started {ns : List Notice} {id : ChannelId} (pid : Option UInt32) :
      Orderly ns → (∀ j e, (some j, e) ∈ ns → j < id) → Orderly ((some id, .started pid) :: ns)
  | crashed {ns : List Notice} {id : ChannelId} {pid : Option UInt32} (code : Option Int) :
      Orderly ((some id, .started pid) :: ns) →
      Orderly ((some id, .crashed code) :: (some id, .started pid) :: ns)
  | stopped {ns : List Notice} {id : ChannelId} {e : Event} :
      Orderly ((some id, e) :: ns) → e ≠ .stopped → Orderly ((some id, .stopped) :: (some id, e) :: ns)

/-- The rounds, oldest first, tell what has been told, and the last of them ends as it does. -/
structure Tells (rs : List Round) (ns : List Notice) : Prop where
  notices : ns.reverse = rs.flatMap Round.notices
  increasing : rs.Pairwise fun r r' => r.channel < r'.channel
  last : ∀ id e, ns.head? = some (some id, e) →
    ∃ earlier r, rs = earlier ++ [r] ∧ r.channel = id ∧ r.Ends e

variable {ns : List Notice} {rs : List Round} {r : Round} {id : ChannelId} {e : Event}

/-- The last round goes on. -/
theorem Tells.extend {n : Notice} (h : Tells (rs ++ [r]) ns) (r' : Round)
    (hnotices : r'.notices = r.notices ++ [n]) (hchannel : r'.channel = r.channel)
    (hends : ∀ id e, n = (some id, e) → r'.channel = id ∧ r'.Ends e) : Tells (rs ++ [r']) (n :: ns) where
  notices := by
    rw [List.reverse_cons, h.notices, List.flatMap_append, List.flatMap_append, List.flatMap_singleton,
      List.flatMap_singleton, hnotices, List.append_assoc]
  increasing := by
    obtain ⟨hrs, -, hlast⟩ := List.pairwise_append.mp h.increasing
    refine List.pairwise_append.mpr ⟨hrs, List.pairwise_singleton _ _, fun q hq q' hq' => ?_⟩
    rw [List.mem_singleton.mp hq', hchannel]
    exact hlast q hq r List.mem_cons_self
  last id e hn := by
    obtain ⟨hid, he⟩ := hends id e (Option.some.inj hn)
    exact ⟨rs, r', rfl, hid, he⟩

theorem Orderly.tells (h : Orderly ns) : ∃ rs, Tells rs ns := by
  induction h with
  | nil => exact ⟨[], rfl, .nil, nofun⟩
  | @started ns id pid _ hnew ih =>
    obtain ⟨rs, h⟩ := ih
    refine ⟨rs ++ [⟨id, pid, none, false⟩], ?_, ?_, fun j e hj => ?_⟩
    · rw [List.reverse_cons, h.notices, List.flatMap_append]
      rfl
    · refine List.pairwise_append.mpr ⟨h.increasing, List.pairwise_singleton _ _, fun r hr r' hr' => ?_⟩
      rw [List.mem_singleton.mp hr']
      refine hnew r.channel (.started r.pid) (List.mem_reverse.mp ?_)
      rw [h.notices]
      exact List.mem_flatMap.mpr ⟨r, hr, List.mem_cons_self⟩
    · cases Option.some.inj hj
      exact ⟨rs, _, rfl, rfl, rfl, rfl, rfl⟩
  | @crashed ns id pid code _ ih =>
    obtain ⟨_, h⟩ := ih
    obtain ⟨rs, r, rfl, rfl, rfl, hcrash, hstopped⟩ := h.last id _ rfl
    refine ⟨_, h.extend { r with crash := some code } ?_ rfl fun id e hn => ?_⟩
    · simp [Round.notices, hcrash, hstopped]
    · cases hn
      exact ⟨rfl, hstopped⟩
  | @stopped ns id e _ he ih =>
    obtain ⟨_, h⟩ := ih
    obtain ⟨rs, r, rfl, rfl, hends⟩ := h.last id _ rfl
    have hstopped : r.isStopped = false := by
      cases e with
      | started => exact hends.2.2
      | crashed => exact hends
      | stopped => exact absurd rfl he
    refine ⟨_, h.extend { r with isStopped := true } ?_ rfl fun id e hn => ?_⟩
    · simp [Round.notices, hstopped]
    · cases hn
      exact ⟨rfl, trivial⟩

end LanguageServer.Analyzer
