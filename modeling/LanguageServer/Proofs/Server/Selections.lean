import LanguageServer.Proofs.Server.Requests
import LanguageServer.Proofs.Symbol.Nesting
import Mathlib.Data.List.Forall2

/-! Selections of symbols that the analysis process hands out. Symbols of parsed and of compiled
texts have their selections pulled inside their ranges, as far as a range can hold one; symbols found
through imports stay as they were sent. -/
namespace LanguageServer

namespace Heading

/-- Two headings alike but for a selection: one that lies inside its range stays, and any other
becomes the start of the range. -/
structure Pulled (h h' : Heading) : Prop where
  name : h'.name = h.name
  range : h'.range = h.range
  kept : h.range.containsRange h.selection → h'.selection = h.selection
  moved : ¬h.range.containsRange h.selection → h'.selection = ⟨h.range.start, h.range.start⟩

theorem pulled_normalize (h : Heading) : h.Pulled h.normalize := by
  unfold normalize
  split
  case isTrue hin => exact ⟨rfl, rfl, fun _ => rfl, fun hout => absurd hin hout⟩
  case isFalse hout => exact ⟨rfl, rfl, fun hin => absurd hin hout, fun _ => rfl⟩

/-- A pulled selection lies inside its range unless the range ends before it starts: such a range
holds nothing. -/
theorem Pulled.inside_iff {h h' : Heading} (hp : h.Pulled h') :
    h'.range.containsRange h'.selection ↔ h'.range.start ≤ h'.range.stop := by
  simp only [Range.containsRange, Bool.and_eq_true, Range.contains_iff, hp.range]
  constructor
  · rintro ⟨⟨hstart, hstop⟩, -⟩
    exact Position.le_trans hstart hstop
  · intro hforward
    by_cases hin : h.range.containsRange h.selection
    · simpa only [hp.kept hin, Range.containsRange, Bool.and_eq_true, Range.contains_iff] using hin
    · rw [hp.moved hin]
      exact ⟨⟨Position.le_refl _, hforward⟩, Position.le_refl _, hforward⟩

/-- A heading outside whose range the selection stays is pulled to the same place again. -/
theorem normalize_normalize (h : Heading) : h.normalize.normalize = h.normalize := by
  by_cases hin : h.range.containsRange h.selection
  · have hsame : h.normalize = h := if_pos hin
    rw [hsame, hsame]
  · have hmoved : h.normalize = { h with selection := ⟨h.range.start, h.range.start⟩ } := if_neg hin
    rw [hmoved]
    exact ite_self _

end Heading

namespace Symbol

/-- Two trees alike but for selections, which are pulled inside the ranges. -/
inductive Pulled : Symbol → Symbol → Prop
  | scope {h h' : Heading} {kind : Scope} {children children' : List Symbol} (hh : h.Pulled h')
      (hc : List.Forall₂ Pulled children children') :
      Pulled (.scope h kind children) (.scope h' kind children')
  | leaf {h h' : Heading} {kind : Leaf} (hh : h.Pulled h') : Pulled (.leaf h kind) (.leaf h' kind)

theorem forall₂_pulled_normalizeAll (forest : List Symbol) :
    List.Forall₂ Pulled forest (normalizeAll forest) := by
  induction forest using forest_induction with
  | nil => exact .nil
  | cons s rest children ih =>
    refine .cons ?_ ih
    cases s with
    | scope h kind cs => exact .scope h.pulled_normalize children
    | leaf h kind => exact .leaf h.pulled_normalize

theorem heading_normalize (s : Symbol) : s.normalize.heading = s.heading.normalize := by
  cases s <;> rfl

theorem children_normalize (s : Symbol) : s.normalize.children = normalizeAll s.children := by
  cases s <;> rfl

theorem walk_normalizeAll (forest : List Symbol) :
    walk (normalizeAll forest) = (walk forest).map normalize := by
  induction forest using forest_induction with
  | nil => simp [normalizeAll, walk_nil]
  | cons s rest children ih =>
    rw [normalizeAll, walk_cons, walk_cons, children_normalize, children, ih, List.map_append,
      List.map_cons]

/-- In normalized forests a selection lies inside its range unless the range ends before it starts. -/
theorem inside_iff_of_mem_walk {forest : List Symbol} {t : Symbol}
    (ht : t ∈ walk (normalizeAll forest)) :
    t.range.containsRange t.selection ↔ t.range.start ≤ t.range.stop := by
  rw [walk_normalizeAll, List.mem_map] at ht
  obtain ⟨s, -, rfl⟩ := ht
  rw [range, selection, heading_normalize]
  exact s.heading.pulled_normalize.inside_iff

theorem normalizeAll_normalizeAll (forest : List Symbol) :
    normalizeAll (normalizeAll forest) = normalizeAll forest := by
  induction forest using forest_induction with
  | nil => rfl
  | cons s rest children ih =>
    rw [normalizeAll, normalizeAll, ih]
    cases s with
    | scope h kind cs =>
      have hcs : normalizeAll (normalizeAll cs) = normalizeAll cs := children
      simp only [normalize, h.normalize_normalize, hcs]
    | leaf h kind => simp only [normalize, h.normalize_normalize]

end Symbol

namespace Server

open Analyzer

variable {α β : Type} {op : Operation} {answered : Except Failure Json → Prop}

/-- What may be told of a request that was written, when the others do what they may. -/
def Answered (o : Company Server) (op : Operation) (params : Json) (r : Except Failure Json) : Prop :=
  ∃ (s s' : Server) (id : ChannelId) (n : RequestId) (client : Client) (ch : Channel),
    s.client.post id op params = (.ok n, client) ∧ o.may { s with client } s' ∧
      (s'.client.channel id).collect n = some (r, ch)

/-- A request whose answer is rewritten comes to what the answer is, rewritten. -/
theorem Replies.of_map {read : Json → Option α} {f : α → β} {r : Except Failure β}
    (h : Replies op (fun j => (read j).map f) answered r) :
    ∃ sent, Replies op read answered sent ∧ r = sent.map f := by
  cases r with
  | ok b =>
    obtain ⟨j, hj, hb⟩ := h
    obtain ⟨a, ha, rfl⟩ := Option.map_eq_some_iff.mp hb
    exact ⟨.ok a, ⟨j, hj, ha⟩, rfl⟩
  | error f =>
    refine ⟨.error f, ?_, rfl⟩
    exact h.imp_right (.imp_right (.imp_right fun ⟨j, hj, hb⟩ => ⟨j, hj, Option.map_eq_none_iff.mp hb⟩))

theorem runs_request_map (o : Company Server) (op : Operation) (params : Json)
    (read : Json → Option α) (f : α → β) (s : Server) :
    (request op params fun j => (read j).map f).Runs o
      (fun r _ => ∃ sent, Replies op read (Answered o op params) sent ∧ r = sent.map f) s :=
  have hears : Hears o op params (Answered o op params) :=
    fun s id n client s' _ ch hpost hmay hcollect => ⟨s, s', id, n, client, ch, hpost, hmay, hcollect⟩
  Task.Meets.runs (w := s) <| meets_request (I := fun _ => True) (fun _ _ _ _ => trivial)
    (fun _ _ _ => trivial) hears trivial _ fun _ _ _ _ hr => hr.of_map

/-- What requests for symbols hand out, whatever the process answers and the others do. The symbols
of parsed and of compiled texts are those of the answer with nothing changed but selections that lay
outside their ranges; then all lie inside but those of ranges that end before they start. Symbols
found through imports are handed out as the answer has them. -/
theorem symbols_handedOut (o : Company Server) (source filename : String) (depth : Nat) (s : Server) :
    (parse source filename).Runs o (fun r _ => ∃ sent,
      Replies .parse (listUnder? "symbols" Symbol.ofJson?)
        (Answered o .parse (sourceParams source filename)) sent ∧
      r = sent.map Symbol.normalizeAll) s ∧
    (compile source filename).Runs o (fun r _ => ∃ sent,
      Replies .compile Analysis.ofJson? (Answered o .compile (sourceParams source filename)) sent ∧
      r = sent.map fun a => { a with symbols := Symbol.normalizeAll a.symbols }) s ∧
    (waterfallSymbols source filename depth).Runs o (fun r _ => ∃ sent,
      Replies .waterfallSymbols (listUnder? "symbols" WaterfallSymbol.ofJson?)
        (Answered o .waterfallSymbols (waterfallParams source filename depth)) sent ∧
      r = sent.map fun symbols => ⟨Hash.ofText source, depth, symbols⟩) s ∧
    ∀ forest, List.Forall₂ Symbol.Pulled forest (Symbol.normalizeAll forest) ∧
      (∀ t ∈ Symbol.walk (Symbol.normalizeAll forest),
        t.range.containsRange t.selection ↔ t.range.start ≤ t.range.stop) ∧
      Symbol.normalizeAll (Symbol.normalizeAll forest) = Symbol.normalizeAll forest :=
  ⟨runs_request_map o _ _ _ _ s, runs_request_map o _ _ _ _ s, runs_request_map o _ _ _ _ s,
    fun forest => ⟨Symbol.forall₂_pulled_normalizeAll forest, fun _ => Symbol.inside_iff_of_mem_walk,
      Symbol.normalizeAll_normalizeAll forest⟩⟩

end Server
end LanguageServer
