import LanguageServer.Analyzer.Channel
import LanguageServer.Proofs.Json.Reading
import LanguageServer.Proofs.Json.Records
import Mathlib.Data.List.TakeDrop

/-! The lines of a stream of bytes. A reader takes one line after another off a stream that may still
grow; what it has taken is the beginning of what the whole stream splits into. -/
namespace LanguageServer.Analyzer

/-- What was written, the lines taken off it, and what is left. Each line has its newline, but the last
one may go without when nothing more is written. -/
inductive Cut (isMute : Bool) : List UInt8 → List (List UInt8) → List UInt8 → Prop
  | marked {lines : List (List UInt8)} {rest : List UInt8} : (∀ line ∈ lines, 10 ∉ line) →
    Cut isMute (lines.flatMap (· ++ [10]) ++ rest) lines rest
  | whole {lines : List (List UInt8)} {last : List UInt8} : (∀ line ∈ lines, 10 ∉ line) →
    10 ∉ last → last ≠ [] → isMute = true →
    Cut isMute (lines.flatMap (· ++ [10]) ++ last) (lines ++ [last]) []

namespace Link

variable {l m : Link} {line rest : List UInt8} {heard : Heard}

/-- The line that is read next, and what is left after it. At the end of the output no newline is
needed. -/
inductive Next (l : Link) : List UInt8 → List UInt8 → Prop
  | marked {line rest : List UInt8} : 10 ∉ line → l.output = line ++ 10 :: rest → Next l line rest
  | whole {line : List UInt8} : 10 ∉ line → l.output = line → line ≠ [] → l.isMute = true →
    Next l line []

theorem span_newline (bytes : List UInt8) :
    10 ∉ bytes ∧ bytes.span (· ≠ 10) = (bytes, []) ∨
      ∃ line rest, 10 ∉ line ∧ bytes = line ++ 10 :: rest ∧
        bytes.span (· ≠ 10) = (line, 10 :: rest) := by
  rw [List.span_eq_takeWhile_dropWhile]
  induction bytes with
  | nil => exact .inl ⟨List.not_mem_nil, rfl⟩
  | cons b bytes ih =>
    by_cases hb : b = 10
    · subst hb
      exact .inr ⟨[], bytes, List.not_mem_nil, rfl, rfl⟩
    · have hkept : (decide (b ≠ 10)) = true := decide_eq_true hb
      simp only [List.takeWhile_cons, List.dropWhile_cons, hkept, if_true]
      obtain ⟨hnone, hall⟩ | ⟨line, rest, hline, rfl, hcut⟩ := ih
      · rw [Prod.mk.injEq] at hall
        rw [hall.1, hall.2]
        exact .inl ⟨by simp [hnone, Ne.symm hb], rfl⟩
      · rw [Prod.mk.injEq] at hcut
        rw [hcut.1, hcut.2]
        exact .inr ⟨b :: line, rest, by simp [hline, Ne.symm hb], rfl, rfl⟩

/-- What is heard next is the next line, or the end when everything was read. -/
theorem listen_eq_some (h : l.listen = some (heard, m)) :
    (∃ line rest, l.Next line rest ∧ heard = hear line ∧ m = { l with output := rest }) ∨
      l.isMute = true ∧ l.output = [] ∧ heard = .ended ∧ m = { l with output := [] } := by
  unfold listen at h
  obtain ⟨hnone, hspan⟩ | ⟨line, rest, hline, hbytes, hspan⟩ := span_newline l.output
  · simp only [hspan, Option.ite_none_right_eq_some, Option.some.injEq, Prod.mk.injEq] at h
    obtain ⟨hmute, hheard, rfl⟩ := h
    cases hout : l.output with
    | nil =>
      rw [hout] at hheard
      exact .inr ⟨hmute, rfl, hheard.symm, rfl⟩
    | cons b bytes =>
      rw [hout] at hheard hnone
      exact .inl ⟨b :: bytes, [], .whole hnone hout (List.cons_ne_nil _ _) hmute, hheard.symm, rfl⟩
  · simp only [hspan, Option.some.injEq, Prod.mk.injEq] at h
    obtain ⟨rfl, rfl⟩ := h
    exact .inl ⟨line, rest, .marked hline hbytes, rfl, rfl⟩

/-- Nothing is heard as long as no line is complete and more may come. -/
theorem listen_eq_none (h : l.listen = none) : 10 ∉ l.output ∧ l.isMute = false := by
  unfold listen at h
  obtain ⟨hnone, hspan⟩ | ⟨line, rest, -, -, hspan⟩ := span_newline l.output
  · simp only [hspan] at h
    cases hmute : l.isMute with
    | true => simp [hmute] at h
    | false => exact ⟨hnone, rfl⟩
  · simp only [hspan] at h
    cases h

end Link

section Splitting

variable {α : Type} [DecidableEq α] {sep : α} {lines : List (List α)} {rest : List α}

theorem splitOn_line {line : List α} (h : sep ∉ line) : line.splitOn sep = [line] := by
  refine List.splitOnP_eq_singleton fun b hb => ?_
  rw [beq_eq_false_iff_ne]
  rintro rfl
  exact h hb

/-- Lines that each have their separator are told apart. -/
theorem splitOn_marked (h : ∀ line ∈ lines, sep ∉ line) :
    (lines.flatMap (· ++ [sep]) ++ rest).splitOn sep = lines ++ rest.splitOn sep := by
  induction lines with
  | nil => rfl
  | cons line lines ih =>
    have hline := splitOn_line (h line List.mem_cons_self)
    have hrest := ih fun line hline => h line (List.mem_cons_of_mem _ hline)
    calc
      ((line :: lines).flatMap (· ++ [sep]) ++ rest).splitOn sep
        = (line ++ sep :: (lines.flatMap (· ++ [sep]) ++ rest)).splitOn sep := by simp
      _ = line.splitOn sep ++ (lines.flatMap (· ++ [sep]) ++ rest).splitOn sep := by
        unfold List.splitOn
        exact List.splitOnP_append_cons _ _ (beq_self_eq_true _)
      _ = line :: lines ++ rest.splitOn sep := by rw [hline, hrest]; rfl

end Splitting

namespace Cut

variable {isMute : Bool} {bytes more rest : List UInt8} {lines : List (List UInt8)}

theorem splitOn_whole {last : List UInt8} (h : ∀ line ∈ lines, 10 ∉ line) (hlast : 10 ∉ last) :
    (lines.flatMap (· ++ [10]) ++ last).splitOn 10 = lines ++ [last] := by
  rw [splitOn_marked h, splitOn_line hlast]

/-- The lines that were taken come first in the stream. -/
theorem isPrefix (h : Cut isMute bytes lines rest) : lines <+: bytes.splitOn 10 := by
  cases h with
  | marked h => exact splitOn_marked h ▸ List.prefix_append _ _
  | whole h hlast _ _ => exact splitOn_whole h hlast ▸ List.prefix_rfl

/-- A stream may grow until it ends. -/
theorem append {isMute' : Bool} (h : Cut isMute bytes lines rest)
    (hmore : isMute = true → isMute' = true ∧ more = []) :
    Cut isMute' (bytes ++ more) lines (rest ++ more) := by
  cases h with
  | marked h =>
    rw [List.append_assoc]
    exact .marked h
  | whole h hlast hne hmute =>
    obtain ⟨hmute', rfl⟩ := hmore hmute
    rw [List.append_nil]
    exact .whole h hlast hne hmute'

/-- The next line follows those that were taken. -/
theorem next {l : Link} {line : List UInt8} (h : Cut l.isMute bytes lines l.output)
    (hnext : l.Next line rest) : Cut l.isMute bytes (lines ++ [line]) rest := by
  generalize hout : l.output = output at h
  cases h with
  | marked h =>
    cases hnext with
    | marked hline hbytes =>
      have hall : ∀ k ∈ lines ++ [line], 10 ∉ k := by
        intro k hk
        obtain hk | hk := List.mem_append.mp hk
        · exact h k hk
        · exact List.mem_singleton.mp hk ▸ hline
      have hcut : Cut l.isMute _ (lines ++ [line]) rest := .marked hall
      rw [List.flatMap_append, List.flatMap_singleton, List.append_assoc, List.append_assoc] at hcut
      rw [← hout, hbytes]
      exact hcut
    | whole hline hbytes hne hmute =>
      rw [← hout, hbytes]
      exact .whole h hline hne hmute
  | whole =>
    cases hnext with
    | marked _ hbytes => simp [hbytes] at hout
    | whole _ hbytes hne _ => exact absurd (hbytes.symm.trans hout) hne

/-- When no line is left, all of the stream but what follows its last newline was taken. -/
theorem eq_dropLast (h : Cut false bytes lines rest) (hrest : 10 ∉ rest) :
    lines = (bytes.splitOn 10).dropLast := by
  cases h with
  | marked h => rw [splitOn_whole h hrest, List.dropLast_concat]
  | whole _ _ _ hmute => cases hmute

/-- When nothing is left, the whole stream was taken. -/
theorem eq_all (h : Cut isMute bytes lines []) :
    bytes.splitOn 10 = lines ∨ bytes.splitOn 10 = lines ++ [[]] := by
  cases h with
  | marked h => exact .inr (splitOn_marked h)
  | whole h hlast _ _ => exact .inl (splitOn_whole h hlast)

end Cut
end LanguageServer.Analyzer

/-! Lines between the client and the process: requests are told apart by their newlines, and the
line of an answer settles its request with the answer. -/
namespace LanguageServer.Analyzer

open Json (Legible maxDepth)

/-- How deep the containers of a member of a line may nest. -/
def innerDepth : Nat := maxDepth - 1

theorem legible_nat_uint64 (room : Nat) (n : UInt64) : Legible room (.nat n.toNat) := by
  have hn := n.toNat_lt
  refine .int ?_ ?_ <;> simp only [Json.minInt, Json.maxInt] <;> omega

namespace Request

def ofLine? (line : String) : Option Request := (Json.parse? line).bind ofJson?

/-- The text that requests are written as, each with its newline. -/
def writeAll (requests : List Request) : List Char := requests.flatMap fun r => r.line.toList ++ ['\n']

/-- The requests on the lines of a text, each of which has its newline. -/
def readAll? (text : List Char) : Option (List Request) :=
  (text.splitOn '\n').dropLast.mapM fun line => ofLine? (String.ofList line)

theorem legible_toJson {r : Request} (h : Legible innerDepth r.params) : Legible maxDepth r.toJson := by
  refine .object fun m hm => ?_
  simp only [List.mem_cons, List.not_mem_nil, or_false] at hm
  obtain rfl | rfl | rfl := hm
  · exact legible_nat_uint64 _ _
  · exact .string _
  · exact h

theorem ofLine?_line {r : Request} (h : Legible innerDepth r.params) : ofLine? r.line = some r := by
  rw [ofLine?, line, (legible_toJson h).parse?_compact, Option.bind_some, ofJson?_toJson]

theorem newline_not_mem_line (r : Request) : '\n' ∉ r.line.toList := Json.newline_not_mem_compact _

/-- Cut at its newlines, the text falls into the lines that were written. -/
theorem splitOn_writeAll (requests : List Request) :
    (writeAll requests).splitOn '\n' = requests.map (fun r => r.line.toList) ++ [[]] := by
  have hlines : ∀ line ∈ requests.map fun r => r.line.toList, '\n' ∉ line :=
    List.forall_mem_map.mpr fun r _ => newline_not_mem_line r
  have htext : writeAll requests =
      (requests.map fun r => r.line.toList).flatMap (· ++ ['\n']) ++ [] := by
    simp [writeAll, List.flatMap_map]
  rw [htext]
  exact splitOn_marked hlines

theorem readAll?_writeAll {requests : List Request}
    (h : ∀ r ∈ requests, Legible innerDepth r.params) :
    readAll? (writeAll requests) = some requests := by
  rw [readAll?, splitOn_writeAll, List.dropLast_concat, List.mapM_map]
  induction requests with
  | nil => rfl
  | cons r rest ih =>
    obtain ⟨hr, hrest⟩ := List.forall_mem_cons.mp h
    simp [ofLine?_line hr, ih hrest]

end Request

namespace Response

/-- The line of a response is read as the value that it writes, when every member is wanted. -/
theorem ofLine?_compact (members : List (String × Json))
    (hlegible : ∀ m ∈ members, Legible innerDepth m.2)
    (h : ∀ m ∈ members, ∃ inner, shape.member? m.1 = some inner ∧ Json.Reads inner innerDepth m.2) :
    ofLine? (Text.trim (Json.compact (.object members))) = ofJson? (.object members) := by
  have hread := (Legible.object hlegible).parseAs?_compact (Json.reads_object h)
  rw [Json.trim_compact_object, ofLine?, hread, Option.bind_some]

theorem optional_requestId (id : RequestId) :
    Json.optional requestId? (some (.nat id.toNat)) = some (some id) := by
  change (requestId? (.nat id.toNat)).map some = some (some id)
  simp [requestId?, Json.natOfBits?_uint64]

/-- A result that is null is taken for none at all. -/
theorem optional_result (v : Json) : ∃ result,
    Json.optional (fun j => some j.canonical) (some v) = some result ∧
      result.getD .null = v.canonical := by
  cases v <;> exact ⟨_, rfl, rfl⟩

theorem ofLine?_ok (id : RequestId) {v : Json} (h : Legible innerDepth v) :
    ∃ r, ofLine? (Text.trim (ok id v).toJson.compact) = some r ∧ r.id = some id ∧
      r.outcome = .ok v.canonical := by
  have hid := legible_nat_uint64 innerDepth id
  have hread : ofLine? (Text.trim (ok id v).toJson.compact) = ofJson? (ok id v).toJson :=
    ofLine?_compact [("id", .nat id.toNat), ("result", v)] (by simp [hid, h])
      (Json.reads_pair rfl hid.reads rfl h.reads)
  have hfields : (ok id v).toJson.fields? ["id", "result", "error", "message"] =
      some [some (.nat id.toNat), some v, none, none] := by
    simp [ok, toJson, Json.fields?, Json.single?]
  obtain ⟨result, hresult, hv⟩ := optional_result v
  refine ⟨⟨some id, result, none, none⟩, ?_, rfl, congrArg Except.ok hv⟩
  rw [hread]
  simp [ofJson?, hfields, optional_requestId, hresult, Json.optional_none]

theorem ofLine?_err (id : RequestId) {code : Int} {message : String}
    (h : Rejection.IsNarrow ⟨code, message⟩) :
    ofLine? (Text.trim (err id code message).toJson.compact) = some (err id code message) := by
  let rejection : Rejection := ⟨code, message⟩
  have hid := legible_nat_uint64 innerDepth id
  have hcode : Legible 126 (.int code) := by
    obtain ⟨hlow, hhigh⟩ := h
    exact .int hlow (Int.le_trans hhigh (by decide))
  have hlegible : Legible innerDepth rejection.toJson :=
    .object (by simp [rejection, hcode, Legible.string])
  have hreads : Json.Reads (.record [("code", .whole), ("message", .whole)]) innerDepth
      rejection.toJson :=
    Json.reads_object (Json.reads_pair rfl hcode.reads rfl (Legible.string message).reads)
  have hread : ofLine? (Text.trim (err id code message).toJson.compact) =
      ofJson? (err id code message).toJson :=
    ofLine?_compact [("error", rejection.toJson), ("id", .nat id.toNat)] (by simp [hid, hlegible])
      (Json.reads_pair rfl hreads rfl hid.reads)
  have hfields : (err id code message).toJson.fields? ["id", "result", "error", "message"] =
      some [some (.nat id.toNat), none, some rejection.toJson, none] := by
    simp [err, toJson, Json.fields?, Json.single?, rejection]
  have herror : Json.optional Rejection.ofJson? (some rejection.toJson) = some (some rejection) := by
    change (Rejection.ofJson? rejection.toJson).map some = some (some rejection)
    rw [Rejection.ofJson?_toJson h, Option.map_some]
  rw [hread]
  simp [ofJson?, hfields, optional_requestId, herror, Json.optional_none]
  rfl

end Response

namespace Channel

/-- A request is settled and no longer waits; all else stays as it is. -/
structure Completed (c d : Channel) (id : RequestId) (o : Except Failure Json) : Prop where
  answer : d.outcomes.find? id = some o
  waiting : ∀ k, k ∈ d.pending ↔ k ∈ c.pending ∧ k ≠ id
  others : ∀ k, k ≠ id → d.outcomes.find? k = c.outcomes.find? k
  unchanged : { d with pending := c.pending, outcomes := c.outcomes } = c

theorem settle_completed {c : Channel} {id : RequestId} (h : id ∈ c.pending)
    (o : Except Failure Json) : Completed c (c.settle id o) id o := by
  have hsettle : c.settle id o = { c.withdraw id with outcomes := c.outcomes.insert id o } :=
    if_pos (by simpa using h)
  rw [hsettle]
  refine ⟨by simp [Table.find?_insert], fun k => by simp [withdraw], fun k hk => ?_, rfl⟩
  simp [Table.find?_insert, Ne.symm hk]

variable {c : Channel} {id : RequestId}

theorem accept_of_ofLine? {line : String} {r : Response}
    (h : Response.ofLine? (Text.trim line) = some r) (hid : r.id = some id) : c.accept line = c.settle id r.outcome := by
  simp [accept, h, hid]

theorem accept_ok (hid : id ∈ c.pending) {v : Json} (h : Legible innerDepth v) :
    Completed c (c.accept (Response.ok id v).toJson.compact) id (.ok v.canonical) := by
  obtain ⟨r, hline, hr, houtcome⟩ := Response.ofLine?_ok id h
  rw [accept_of_ofLine? hline hr, houtcome]
  exact settle_completed hid _

theorem accept_err (hid : id ∈ c.pending) {code : Int} {message : String}
    (h : Rejection.IsNarrow ⟨code, message⟩) :
    Completed c (c.accept (Response.err id code message).toJson.compact) id
      (.error (.rejected code message)) := by
  rw [accept_of_ofLine? (Response.ofLine?_err id h) rfl]
  exact settle_completed hid _

end Channel
/-- What is written is read back: every record from its value, every request from its line, and every
answer by the request that it answers. A URL is taken to be read from its own text, and a value that is
written as part of a line to be legible there. -/
structure RoundTrips : Prop where
  position (p : Position) : Position.ofJson? p.toJson = some p
  range (r : Range) : Range.ofJson? r.toJson = some r
  symbol (s : Symbol) : Symbol.ofJson? s.toJson = some s
  diagnostic (d : Diagnostic) : Diagnostic.ofJson? d.toJson = some d
  analysis (a : Analysis) : (a.index.map (·.1)).Nodup →
    ∃ b, Analysis.ofJson? a.toJson = some b ∧ b.Same a
  edge (e : ImportEdge) : ImportEdge.ofJson? e.toJson = some e
  path (p : Path) : Path.ofJson? p.toJson = some p
  verdict (v : CycleVerdict) : (∀ path, v = .cycle path → ∀ u ∈ path, u.ReadsBack) →
    CycleVerdict.ofJson? v.toJson = some v
  waterfallSymbol (s : WaterfallSymbol) : s.source.ReadsBack → s.depth < 2 ^ 64 →
    WaterfallSymbol.ofJson? s.toJson = some s
  waterfall (w : Waterfall) : w.depth < 2 ^ 64 → (∀ s ∈ w.symbols, s.source.ReadsBack ∧ s.depth < 2 ^ 64) →
    Waterfall.ofJson? w.toJson = some w
  introspection (i : Introspection) : Introspection.ofJson? i.toJson = some i
  stdlibSymbol (s : StdlibSymbol) : StdlibSymbol.ofJson? s.toJson = some s
  health (h : Health) : Health.ofJson? h.toJson = some h
  tag (t : Timed.Tag) : Timed.Tag.ofJson? t.toJson = some t
  request (r : Request) : Request.ofJson? r.toJson = some r
  newline (r : Request) : '\n' ∉ r.line.toList
  requests (rs : List Request) : (∀ r ∈ rs, Legible innerDepth r.params) →
    Request.readAll? (Request.writeAll rs) = some rs
  ok (c : Channel) (id : RequestId) (v : Json) : id ∈ c.pending → Legible innerDepth v → v.canonical = v →
    Channel.Completed c (c.accept (Response.ok id v).toJson.compact) id (.ok v)
  err (c : Channel) (id : RequestId) (code : Int) (message : String) : id ∈ c.pending →
    Rejection.IsNarrow ⟨code, message⟩ →
    Channel.Completed c (c.accept (Response.err id code message).toJson.compact) id
      (.error (.rejected code message))

theorem roundTrips : RoundTrips where
  position := Position.ofJson?_toJson
  range := Range.ofJson?_toJson
  symbol := Symbol.ofJson?_toJson
  diagnostic := Diagnostic.ofJson?_toJson
  analysis _ h := Analysis.same_ofJson? h
  edge := ImportEdge.ofJson?_toJson
  path := Path.ofJson?_toJson
  verdict _ := CycleVerdict.ofJson?_toJson
  waterfallSymbol _ := WaterfallSymbol.ofJson?_toJson
  waterfall _ := Waterfall.ofJson?_toJson
  introspection := Introspection.ofJson?_toJson
  stdlibSymbol := StdlibSymbol.ofJson?_toJson
  health := Health.ofJson?_toJson
  tag := Timed.Tag.ofJson?_toJson
  request := Request.ofJson?_toJson
  newline := Request.newline_not_mem_line
  requests _ := Request.readAll?_writeAll
  ok c id v hid h hv := by
    have hcompleted := Channel.accept_ok hid h
    rwa [hv] at hcompleted
  err _ _ _ _ hid h := Channel.accept_err hid h

/-- A chain of imports through a name that is encoded, two requests of which the first is about a text of
two lines, and answers to request 7 while request 8 waits too. -/
theorem roundTrips_sample :
    let chain : CycleVerdict := .cycle [⟨"file", some "", "/a%20b.pike", none, none⟩]
    let requests : List Request := [⟨7, "parse", .object [("filename", .string "/a b.pike"),
      ("source", .string "int a;\nint b;"), ("version", .double 0x3FF8000000000000)]⟩, ⟨8, "health", .null⟩]
    let channel : Channel := { Channel.connect .fresh none false with pending := [7, 8] }
    CycleVerdict.ofJson? chain.toJson = some chain ∧
      Request.readAll? (Request.writeAll requests) = some requests ∧
      Channel.Completed channel (channel.accept (Response.ok 7 .null).toJson.compact) 7 (.ok .null) ∧
      Channel.Completed channel (channel.accept (Response.err 7 (-32601) "no such method").toJson.compact) 7
        (.error (.rejected (-32601) "no such method")) := by
  refine ⟨roundTrips.verdict _ ?_, roundTrips.requests _ ?_, roundTrips.ok _ 7 .null ?_ .null rfl,
    roundTrips.err _ 7 _ _ ?_ ?_⟩
  · rintro path ⟨⟩ u hu
    obtain rfl := List.mem_singleton.mp hu
    decide +kernel
  · refine List.forall_mem_cons.mpr ⟨.object ?_, List.forall_mem_singleton.mpr .null⟩
    simp [Legible.string, Legible.double Json.readsBack_three_halves]
  · decide
  · decide
  · constructor <;> decide

end LanguageServer.Analyzer
