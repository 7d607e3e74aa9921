import LanguageServer.Proofs.Server.Tracing
import Mathlib.Data.Set.Function

/-! What there is to answer at one moment, and when an answer is that: what was read for it counts,
every change of a file has been told, and imports are found where they were found. -/
namespace LanguageServer

/-- Two outcomes are the same, unless the process has failed. -/
def Agrees {α : Type} (r r' : Except Failure α) : Prop :=
  r = r' ∨ ∃ f, f.needsRestart = true ∧ (r = .error f ∨ r' = .error f)

namespace Agrees

variable {α : Type} {a b : α} {f g : Failure}

theorem ok_ok (h : Agrees (.ok a) (.ok b)) : a = b := by
  obtain h | ⟨f, -, h | h⟩ := h
  · exact Except.ok.inj h
  · cases h
  · cases h

theorem ok_error (h : Agrees (.ok a) (.error f)) : f.needsRestart = true := by
  obtain h | ⟨g, hg, h | h⟩ := h
  · cases h
  · cases h
  · cases h
    exact hg

end Agrees

namespace Survey

/-- The process makes one thing of a text, unless it fails. -/
structure Oracle.IsSingle (o : Oracle) : Prop where
  imports : ∀ t f r r', o.imports t f r → o.imports t f r' → Agrees r r'
  symbols : ∀ t f r r', o.symbols t f r → o.symbols t f r' → Agrees r r'

/-- What is held at one moment for what a document shows at another has the symbols of the text. -/
def Describes (o : Oracle) (b n : Moment) : Prop :=
  ∀ x a, b.shown? x.url = some x → n.server.analyses.get? x.fingerprint = some a →
    o.symbols x.text (Server.filename x.url) (.ok a.symbols)

/-- The imports of these documents lead to these documents. -/
def Moment.Leads (o : Oracle) (texts : Set String) (urls : Set Url) (m : Moment) : Prop :=
  ∀ u ∈ urls, ∀ t ∈ texts, ∀ edges, o.imports t (Server.filename u) (.ok edges) →
    ∀ e ∈ edges, ∀ v, (m.server.locateEdge u e).url? = some v → v ∈ urls

/-- The imports of a document are found in the same places at two moments. -/
def FindsAlike (o : Oracle) (texts : Set String) (u : Url) (p m : Moment) : Prop :=
  ∀ t ∈ texts, ∀ edges, o.imports t (Server.filename u) (.ok edges) →
    edges.map (p.server.locateEdge u) = edges.map (m.server.locateEdge u)

/-- Settings, documents and files are the same at two moments. -/
structure Moment.Alike (p m : Moment) : Prop where
  configuration : p.server.configuration = m.server.configuration
  documents : p.server.documents = m.server.documents
  files : p.server.around.files = m.server.around.files

variable {o : Oracle} {texts : Set String} {urls : Set Url} {u : Url} {t : String} {p m : Moment}
  {h k asked look : List Moment}

theorem Moment.Alike.refl (m : Moment) : m.Alike m := ⟨rfl, rfl, rfl⟩

theorem Moment.Alike.symm (h : p.Alike m) : m.Alike p :=
  ⟨h.configuration.symm, h.documents.symm, h.files.symm⟩

theorem Moment.Alike.trans {n : Moment} (h : p.Alike m) (h' : m.Alike n) : p.Alike n :=
  ⟨h.configuration.trans h'.configuration, h.documents.trans h'.documents, h.files.trans h'.files⟩

theorem Moment.Fits.alike {s : Server} (h : p.Fits s) : p.Alike ⟨none, s⟩ :=
  ⟨h.configuration, h.documents, h.files⟩

theorem Moment.Alike.isWithin (h : p.Alike m) (hp : p.IsWithin texts) : m.IsWithin texts := fun u => by
  simpa only [Server.fileText?, h.documents, h.files] using hp u

theorem Moment.Alike.text? (h : p.Alike m) (u : Url) : p.server.text? u = m.server.text? u := by
  simp only [Server.text?, Server.fileText?, h.documents, h.files]

theorem Moment.Alike.locateEdge (h : p.Alike m) (u : Url) :
    p.server.locateEdge u = m.server.locateEdge u := by
  funext e
  simp only [Server.locateEdge, h.configuration, h.files]

/-- Where settings and files are the same, imports lead to the same files. -/
theorem Moment.Leads.of_alike (hp : p.Leads o texts urls) (h : p.Alike m) : m.Leads o texts urls :=
  fun u hu t ht edges hedges => by
    rw [← h.locateEdge u]
    exact hp u hu t ht edges hedges

/-- Where the same files exist, imports are found in the same places. -/
theorem findsAlike_of_isFile (hconfiguration : p.server.configuration = m.server.configuration)
    (hfiles : ∀ path, p.server.around.files.isFile path = m.server.around.files.isFile path) :
    FindsAlike o texts u p m := fun t _ edges _ => by
  have hsame : p.server.around.files.isFile = m.server.around.files.isFile := funext hfiles
  refine List.map_congr_left fun e _ => ?_
  simp only [Server.locateEdge, hconfiguration, Prober.resolve, hsame]

/-- What a document shows is what a look at it sees at once. -/
theorem saw_shown? (m : Moment) (u : Url) : Saw u (m.shown? u) [m] [m] := by
  cases hopen : m.server.documents.snapshot? u with
  | some x =>
    rw [Moment.shown?_of_open hopen]
    exact .shown hopen
  | none =>
    rw [Moment.shown?_of_closed hopen]
    exact .onDisk hopen List.suffix_rfl List.suffix_rfl

theorem Moment.shown?_url {x : Snapshot} (h : m.shown? u = some x) : x.url = u :=
  Saw.url (h ▸ saw_shown? m u)

/-- The outcome is this value, unless the process breaks. -/
def OrBreaks {α : Type} (o : Oracle) (a : α) (r : Except Failure α) : Prop :=
  r = .ok a ∨ ∃ f, r = .error f ∧ o.Breaks f

/-- A history in which changes of these files are told, analyses describe their texts, and imports
lead to no other files. -/
structure Steady (o : Oracle) (texts : Set String) (urls : Set Url) (h : List Moment) : Prop where
  settled : ∀ u ∈ urls, Settled u h
  described : ∀ b ∈ h, ∀ n ∈ h, Describes o b n
  leads : ∀ n ∈ h, n.Leads o texts urls

/-- What is made of a text that a document had is the same, whether it was made then or is made now. -/
def Lasts {α : Type} (o : Oracle) (sight : Snapshot → List Moment → α → Prop) : Prop :=
  ∀ b n l m x y a, Describes o b n → b.shown? x.url = some x → y.url = x.url → y.text = x.text →
    sight x (n :: l) a → sight y [m] a

theorem lasts_tops (o : Oracle) : Lasts o (Tops o) := fun b n l m x y a hb hx hurl htext ha => by
  have hsymbols {r : Except Failure (List Symbol)} (hr : o.symbols x.text (Server.filename x.url) r) :
      o.symbols y.text (Server.filename y.url) r := by rwa [hurl, htext]
  cases ha with
  | held ha => exact .parsed (hsymbols (hb x _ hx ha))
  | parsed ha => exact .parsed (hsymbols ha)
  | failed hf ha => exact .failed hf (hsymbols ha)

theorem lasts_bare (o : Oracle) : Lasts o Bare := fun _ _ _ _ _ _ _ _ _ _ _ _ => trivial

/-- Imports that count are found where they were found. -/
def Finds (o : Oracle) (texts : Set String) (urls : Set Url) (p : Moment) (h : List Moment) : Prop :=
  ∀ u ∈ urls, ∀ a l, a :: l <:+ h → Unspoiled u (a :: l) h → FindsAlike o texts u a p

/-- Imports that are told lead to files that are watched. -/
theorem Steady.tidings_leads {α : Type} {sight : Snapshot → List Moment → α → Prop}
    {good : Url → List Moment → Prop} (hsteady : Steady o texts urls h) :
    (tidings o texts sight good h).Leads (· ∈ urls) := fun u t set hu hset e he v hv => by
  obtain ⟨told, -, htold, hset⟩ := hset
  cases hset with
  | @found t edges n l ht hhash hedges =>
    obtain ⟨d, hd, rfl⟩ := List.mem_map.mp he
    exact hsteady.leads n (htold.subset List.mem_cons_self) u hu t ht edges hedges d hd v hv

/-- What was told of imports and counts is what there is to tell now. -/
theorem Extracted.now {hash : UInt64} {x : Option ImportSet} {told : List Moment} (hu : u ∈ urls)
    (hx : Extracted o texts u hash x told) (htold : told <:+ h) (hcounts : Unspoiled u told h)
    (hfinds : Finds o texts urls p h) (halike : p.Alike m) : Extracted o texts u hash x [m] := by
  cases hx with
  | @found t edges n l ht hhash hedges =>
    rw [hfinds u hu n l htold hcounts t ht edges hedges, halike.locateEdge u]
    exact .found ht hhash hedges
  | failed ht hhash hf hedges => exact .failed ht hhash hf hedges

section Now

variable (hs : Story (p :: k)) (hsteady : Steady o texts urls (p :: k))
  (hfinds : Finds o texts urls p (p :: k)) (halike : p.Alike m)
include hs hsteady hfinds halike

/-- What was read and counts is what there is to read now. -/
theorem tidings_extends_now {α : Type} {sight : Snapshot → List Moment → α → Prop}
    {good good' : Url → List Moment → Prop} (hsight : Lasts o sight)
    (hgood : ∀ v look, good v look → Unspoiled v look (p :: k) ∧ good' v [m]) :
    ((tidings o texts sight good (p :: k)).within (· ∈ urls)).Extends
      (tidings o texts sight good' [m]) where
  reads v x hx := by
    obtain ⟨hv, hx⟩ := hx
    cases hx with
    | @missing look seen hlook hseen hsaw =>
      obtain ⟨n, l, rfl⟩ := hsaw.exists_cons
      have hnow := (hsaw.counts hs (hgood v look hlook).1 (hsteady.settled v hv) hseen).1
      rw [halike.text?, ← Moment.text?_shown?, Option.map_none, Option.map_eq_none_iff] at hnow
      exact .missing (hgood v look hlook).2 List.suffix_rfl (hnow ▸ saw_shown? m v)
    | @read look seen x a hlook hseen hsaw ha =>
      obtain ⟨n, l, rfl⟩ := hsaw.exists_cons
      obtain ⟨hnow, hthen⟩ := hsaw.counts hs (hgood v look hlook).1 (hsteady.settled v hv) hseen
      rw [halike.text?, ← Moment.text?_shown?] at hnow
      obtain ⟨y, hy, htext⟩ := Option.map_eq_some_iff.mp hnow
      replace htext : y.text = x.text := htext
      obtain ⟨b, hb, hx⟩ := hthen x rfl
      have hurl : x.url = v := hsaw.url
      rw [← htext]
      refine .read (hgood v look hlook).2 List.suffix_rfl (hy ▸ saw_shown? m v) ?_
      refine hsight b n l m x y a (hsteady.described b hb n ?_) (hurl.symm ▸ hx) ?_ htext ha
      · exact hseen.subset List.mem_cons_self
      · exact (Moment.shown?_url hy).trans hurl.symm
  imports v t x hx := by
    obtain ⟨hv, told, htold, hnow, hx⟩ := hx
    obtain ⟨hcounts, hgood'⟩ := hgood v told htold
    exact ⟨[m], hgood', List.suffix_rfl, hx.now hv hnow hcounts hfinds halike⟩

end Now

theorem Moment.not_spoils (h : m.event = none) (u : Url) : ¬ m.Spoils u := by
  rintro ⟨e, he, -⟩
  cases h.symm.trans he

/-- While nothing is told, all that is read counts. -/
theorem unspoiled_of_silent (hsilent : ∀ n ∈ h, n.event = none) : Unspoiled u look h :=
  fun n _ hn _ => n.not_spoils (hsilent n (hn.subset List.mem_cons_self)) u

section Now

variable (hs : Story (p :: k)) (hsteady : Steady o texts urls (p :: k))
  (hfinds : Finds o texts urls p (p :: k)) (halike : p.Alike m)
include hs hsteady hfinds halike

section Walked

variable {good good' : Url → List Moment → Prop} {told : List Moment}
  (hgood : ∀ v look, good v look → Unspoiled v look (p :: k) ∧ good' v [m])
include hgood

theorem SeesWaterfall.now {key : Url × Nat × UInt64} {r : Except Failure Waterfall} (hu : key.1 ∈ urls)
    (hr : SeesWaterfall o texts good told key r) (htold : told <:+ p :: k) :
    SeesWaterfall o texts good' [m] key r := by
  replace hr := hr.mono (fun _ _ hlook => hlook) htold
  have hleads : (tidings o texts (Tops o) good (p :: k)).Leads (· ∈ urls) := hsteady.tidings_leads
  have hextends := tidings_extends_now hs hsteady hfinds halike (lasts_tops o) hgood
  cases r with
  | ok w =>
    obtain ⟨t, ht, hhash, heq, hdepth, hyields⟩ := hr
    exact ⟨t, ht, hhash, heq, hdepth, (hyields.within hleads hu).mono hextends⟩
  | error f =>
    refine Or.imp_right (fun hfails => ?_) hr
    obtain ⟨t, ht, hhash, hfails⟩ := hfails
    exact ⟨t, ht, hhash, (hfails.within hleads hu).mono hextends⟩

theorem SeesCycle.now {key : Url × UInt64} {r : Except Failure CycleVerdict} (hu : key.1 ∈ urls)
    (hr : SeesCycle o texts good told key r) (htold : told <:+ p :: k) :
    SeesCycle o texts good' [m] key r := by
  replace hr := hr.mono (fun _ _ hlook => hlook) htold
  have hleads : (tidings o texts Bare good (p :: k)).Leads (· ∈ urls) := hsteady.tidings_leads
  have hextends := tidings_extends_now hs hsteady hfinds halike (lasts_bare o) hgood
  cases r with
  | ok v =>
    obtain ⟨t, ht, hhash, hyields⟩ := hr
    exact ⟨t, ht, hhash, (hyields.within hleads hu).mono hextends⟩
  | error f =>
    refine Or.imp_right (fun hfails => ?_) hr
    obtain ⟨t, ht, hhash, hfails⟩ := hfails
    exact ⟨t, ht, hhash, hextends.imports _ _ _ ⟨hu, hfails⟩⟩

end Walked

omit hs hsteady in
theorem Learns.now {hash : UInt64} {told : List Moment} {r : Except Failure ImportSet} (hu : u ∈ urls)
    (hr : Learns o texts u hash told r) (htold : told <:+ p :: k)
    (hcounts : Unspoiled u told (p :: k)) : Learns o texts u hash [m] r := by
  cases r with
  | ok set => exact Extracted.now hu hr htold hcounts hfinds halike
  | error f =>
    exact hr.imp_right fun ⟨hf, hset⟩ => ⟨hf, hset.now hu htold hcounts hfinds halike⟩

section Silent

variable (hsilent : ∀ n ∈ p :: k, n.event = none)
include hsilent

/-- What is told about a text is what there is to answer now. -/
theorem Comes.now {what : What} {r : Except Failure what.Value} (hu : u ∈ urls)
    (hr : Comes o texts asked (p :: k) u t what r) : Comes o texts [m] [m] u t what r := by
  have hnow (v : Url) : Unspoiled v [m] [m] := unspoiled_of_suffix List.suffix_rfl
  have hcounts (v : Url) (look : List Moment) : Unspoiled v look (p :: k) := unspoiled_of_silent hsilent
  cases what with
  | imports =>
    obtain ⟨told, htold, -, hr⟩ := hr
    exact ⟨[m], List.suffix_rfl, hnow u, hr.now hfinds halike hu htold (hcounts u told)⟩
  | waterfall depth =>
    obtain ⟨n, hn, id, told, htold, hr⟩ := hr
    refine ⟨m, List.mem_singleton_self m, id, [m], List.suffix_rfl, ?_⟩
    rw [(hs.configuration hn).trans halike.configuration] at hr
    exact hr.now hs hsteady hfinds halike (fun v look _ => ⟨hcounts v look, (hnow v).excused⟩) hu htold
  | cycle =>
    obtain ⟨id, told, htold, hr⟩ := hr
    exact ⟨id, [m], List.suffix_rfl,
      hr.now hs hsteady hfinds halike (fun v look _ => ⟨hcounts v look, (hnow v).excused⟩) hu htold⟩

/-- What is answered is what there is to answer now. -/
theorem Means.now {x : Query} {r : Except Failure (Option x.what.Value)} (hu : x.file ∈ urls)
    (hr : Means o texts asked (p :: k) x r) :
    Means o texts [m] [m] x r := by
  have hshows {u : Url} {x : Option Snapshot} {look seen : List Moment} (hu : u ∈ urls)
      (hseen : seen <:+ p :: k) (hx : Saw u x look seen) :
      (m.shown? u).map (·.text) = x.map (·.text) := by
    obtain ⟨n, l, rfl⟩ := hx.exists_cons
    rw [Moment.text?_shown?, ← halike.text?]
    exact (hx.counts hs (unspoiled_of_silent hsilent) (hsteady.settled u hu) hseen).1
  cases hr with
  | given hr => exact .given (hr.now hs hsteady hfinds halike hsilent hu)
  | @missing u what look seen _ hseen hx =>
    have hnone := Option.map_eq_none_iff.mp (hshows hu hseen hx)
    exact .missing List.suffix_rfl List.suffix_rfl (hnone ▸ saw_shown? m u)
  | unstarted => exact .unstarted
  | @read u what r x look seen _ hseen hx hr =>
    obtain ⟨y, hy, htext⟩ := Option.map_eq_some_iff.mp (hshows hu hseen hx)
    replace htext : y.text = x.text := htext
    refine .read List.suffix_rfl List.suffix_rfl (hy ▸ saw_shown? m u) ?_
    exact htext ▸ hr.now hs hsteady hfinds halike hsilent hu

end Silent
end Now

section Single

variable (ho : o.IsSingle) (hinj : Set.InjOn Hash.ofText texts)

/-- One thing is to be told of a document at one moment. -/
def IsSharp {α : Type} (o : Oracle) (sight : Snapshot → List Moment → α → Prop) : Prop :=
  ∀ m x a b, Describes o m m → m.shown? x.url = some x → sight x [m] a → sight x [m] b → a = b

include ho in
theorem isSharp_tops : IsSharp o (Tops o) := fun m x a b hm hx ha hb => by
  have htold {c : List Symbol} (hc : Tops o x [m] c) :
      o.symbols x.text (Server.filename x.url) (.ok c) ∨ c = [] ∧ ∃ f, f.needsRestart = false ∧
        o.symbols x.text (Server.filename x.url) (.error f) := by
    cases hc with
    | held hc => exact .inl (hm x _ hx hc)
    | parsed hc => exact .inl hc
    | failed hf hc => exact .inr ⟨rfl, _, hf, hc⟩
  obtain ha | ⟨rfl, f, hf, ha⟩ := htold ha
  · obtain hb | ⟨rfl, g, hg, hb⟩ := htold hb
    · exact (ho.symbols _ _ _ _ ha hb).ok_ok
    · cases (ho.symbols _ _ _ _ ha hb).ok_error.symm.trans hg
  · obtain hb | ⟨rfl, g, hg, hb⟩ := htold hb
    · cases (ho.symbols _ _ _ _ hb ha).ok_error.symm.trans hf
    · rfl

theorem isSharp_bare (o : Oracle) : IsSharp o Bare := fun _ _ _ _ _ _ _ _ => rfl

/-- What is seen of a document at one moment is what it shows. -/
theorem Saw.eq_shown? {x : Option Snapshot} {seen : List Moment} (hx : Saw u x look seen)
    (hseen : seen <:+ [m]) : seen = [m] ∧ m.shown? u = x := by
  have hall {n : Moment} {l : List Moment} (hn : n :: l <:+ [m]) : n = m ∧ l = [] :=
    List.cons.inj (hn.eq_of_length_le (by simp))
  cases hx with
  | shown hopen =>
    obtain ⟨rfl, rfl⟩ := hall hseen
    exact ⟨rfl, Moment.shown?_of_open hopen⟩
  | onDisk hclosed hlook hlater =>
    obtain ⟨rfl, rfl⟩ := hall hseen
    obtain ⟨rfl, rfl⟩ := hall hlater
    obtain ⟨rfl, rfl⟩ := hall hlook
    exact ⟨rfl, Moment.shown?_of_closed hclosed⟩

include ho hinj in
theorem Extracted.unique {hash : UInt64} {x y : Option ImportSet} {told told' : List Moment}
    (hx : Extracted o texts u hash x told) (hy : Extracted o texts u hash y told')
    (htold : told <:+ [m]) (htold' : told' <:+ [m]) : x = y := by
  have hhead {n : Moment} {l : List Moment} (hn : n :: l <:+ [m]) : n = m :=
    (List.cons.inj (hn.eq_of_length_le (by simp))).1
  cases hx with
  | found ht hhash hedges =>
    cases hy with
    | found ht' hhash' hedges' =>
      cases hinj ht ht' (hhash.trans hhash'.symm)
      cases (ho.imports _ _ _ _ hedges hedges').ok_ok
      rw [hhead htold, hhead htold']
    | failed ht' hhash' hf hedges' =>
      cases hinj ht ht' (hhash.trans hhash'.symm)
      cases (ho.imports _ _ _ _ hedges hedges').ok_error.symm.trans hf
  | failed ht hhash hf hedges =>
    cases hy with
    | found ht' hhash' hedges' =>
      cases hinj ht ht' (hhash.trans hhash'.symm)
      cases (ho.imports _ _ _ _ hedges' hedges).ok_error.symm.trans hf
    | failed => rfl

include ho hinj in
/-- One thing is to be told of every file and of every text at one moment. -/
theorem tidings_isSingle {α : Type} {sight : Snapshot → List Moment → α → Prop}
    (hsight : IsSharp o sight) {good : Url → List Moment → Prop} (hm : Describes o m m) :
    (tidings o texts sight good [m]).IsSingle where
  reads v x y hx hy := by
    cases hx with
    | missing _ hseen hsaw =>
      obtain ⟨rfl, hx⟩ := hsaw.eq_shown? hseen
      cases hy with
      | missing => rfl
      | read _ hseen hsaw => cases hx.symm.trans (hsaw.eq_shown? hseen).2
    | read _ hseen hsaw ha =>
      obtain ⟨rfl, hx⟩ := hsaw.eq_shown? hseen
      cases hy with
      | missing _ hseen hsaw => cases hx.symm.trans (hsaw.eq_shown? hseen).2
      | read _ hseen hsaw' hb =>
        obtain ⟨rfl, hy⟩ := hsaw'.eq_shown? hseen
        cases hx.symm.trans hy
        obtain rfl := hsaw.url
        rw [hsight m _ _ _ hm hx ha hb]
  imports v t x y hx hy := by
    obtain ⟨told, -, htold, hx⟩ := hx
    obtain ⟨told', -, htold', hy⟩ := hy
    exact hx.unique ho hinj hy htold htold'


section Unique

variable {good good' : Url → List Moment → Prop} {told told' : List Moment} (hm : Describes o m m)
  (htold : told <:+ [m]) (htold' : told' <:+ [m])
include ho hinj htold htold'

theorem Learns.unique {hash : UInt64} {set : ImportSet} {r : Except Failure ImportSet}
    (hset : Learns o texts u hash told (.ok set)) (hr : Learns o texts u hash told' r) :
    OrBreaks o set r := by
  cases r with
  | ok other =>
    exact .inl (congrArg _ (Option.some.inj (Extracted.unique ho hinj hr hset htold' htold)))
  | error f =>
    refine .inr ⟨f, rfl, hr.resolve_right fun ⟨_, hnone⟩ => ?_⟩
    cases Extracted.unique ho hinj hset hnone htold htold'

include hm

theorem SeesWaterfall.unique {key : Url × Nat × UInt64} {w : Waterfall} {r : Except Failure Waterfall}
    (hw : SeesWaterfall o texts good told key (.ok w)) (hr : SeesWaterfall o texts good' told' key r) :
    OrBreaks o w r := by
  have hsingle : (tidings o texts (Tops o) (fun _ _ => True) [m]).IsSingle :=
    tidings_isSingle ho hinj (isSharp_tops ho) hm
  replace hw := hw.mono (fun _ _ _ => trivial) htold
  replace hr := hr.mono (fun _ _ _ => trivial) htold'
  obtain ⟨t, ht, hhash, heq, hdepth, hyields⟩ := hw
  cases r with
  | ok w' =>
    obtain ⟨t', ht', hhash', heq', hdepth', hyields'⟩ := hr
    cases hinj ht ht' (hhash.trans hhash'.symm)
    have hsame := hyields.unique hsingle hyields'
    obtain ⟨hash, depth, symbols⟩ := w
    obtain ⟨hash', depth', symbols'⟩ := w'
    cases heq.trans heq'.symm
    cases hdepth.trans hdepth'.symm
    cases hsame
    exact .inl rfl
  | error f =>
    refine .inr ⟨f, rfl, hr.resolve_right fun ⟨t', ht', hhash', hfails⟩ => ?_⟩
    cases hinj ht ht' (hhash.trans hhash'.symm)
    exact hyields.not_fails hsingle hfails

theorem SeesCycle.unique {key : Url × UInt64} {verdict : CycleVerdict}
    {r : Except Failure CycleVerdict} (hv : SeesCycle o texts good told key (.ok verdict))
    (hr : SeesCycle o texts good' told' key r) : OrBreaks o verdict r := by
  have hsingle : (tidings o texts Bare (fun _ _ => True) [m]).IsSingle :=
    tidings_isSingle ho hinj (isSharp_bare o) hm
  replace hv := hv.mono (fun _ _ _ => trivial) htold
  replace hr := hr.mono (fun _ _ _ => trivial) htold'
  obtain ⟨t, ht, hhash, hyields⟩ := hv
  cases r with
  | ok other =>
    obtain ⟨t', ht', hhash', hyields'⟩ := hr
    cases hinj ht ht' (hhash.trans hhash'.symm)
    exact .inl (congrArg _ (hyields'.unique hsingle hyields))
  | error f =>
    refine .inr ⟨f, rfl, hr.resolve_right fun ⟨t', ht', hhash', hfails⟩ => ?_⟩
    cases hinj ht ht' (hhash.trans hhash'.symm)
    exact hyields.not_fails hsingle hfails

end Unique

include ho hinj in
/-- There is one answer about a text at one moment. -/
theorem Comes.unique {what : What} {v : what.Value} {r : Except Failure what.Value}
    (hm : Describes o m m) (hv : Comes o texts [m] [m] u t what (.ok v))
    (hr : Comes o texts [m] [m] u t what r) : OrBreaks o v r := by
  cases what with
  | imports =>
    obtain ⟨told, htold, -, hv⟩ := hv
    obtain ⟨told', htold', -, hr⟩ := hr
    exact hv.unique ho hinj htold htold' hr
  | waterfall depth =>
    obtain ⟨p, hp, id, told, htold, hv⟩ := hv
    obtain ⟨p', hp', id', told', htold', hr⟩ := hr
    cases List.mem_singleton.mp hp
    cases List.mem_singleton.mp hp'
    exact hv.unique ho hinj hm htold htold' hr
  | cycle =>
    obtain ⟨id, told, htold, hv⟩ := hv
    obtain ⟨id', told', htold', hr⟩ := hr
    exact hv.unique ho hinj hm htold htold' hr

/-- Where one of two answers to a question is no failure, the other one is the same, unless the process
breaks or does not start. -/
def Accords (o : Oracle) (x : Query) (r r' : Except Failure (Option x.what.Value)) : Prop :=
  ∀ v, r = .ok v → r' = .ok v ∨ ∃ f, r' = .error f ∧ (x.text = none ∨ o.Breaks f)

theorem OrBreaks.accords {u : Url} {text : Option String} {what : What} {v : what.Value}
    {r : Except Failure what.Value} (hr : OrBreaks o v r) :
    Accords o ⟨u, text, what⟩ (.ok (some v)) (r.map some) := fun x hx => by
  cases hx
  obtain rfl | ⟨f, rfl, hf⟩ := hr
  · exact .inl rfl
  · exact .inr ⟨f, rfl, .inr hf⟩

include ho hinj in
/-- There is one answer to a question at one moment. -/
theorem Means.unique {x : Query} {r r' : Except Failure (Option x.what.Value)}
    (hm : Describes o m m) (hr : Means o texts [m] [m] x r) (hr' : Means o texts [m] [m] x r') :
    Accords o x r r' := fun v hv => by
  cases hr with
  | @given u t what r hr =>
    cases hr' with
    | given hr' =>
      cases r with
      | error f => cases hv
      | ok a => exact (hr.unique ho hinj hm hr').accords v hv
  | unstarted => cases hv
  | missing _ hseen hx =>
    cases hr' with
    | missing => exact .inl hv
    | unstarted => exact .inr ⟨_, rfl, .inl rfl⟩
    | read _ hseen' hx' _ => cases (hx.eq_shown? hseen).2.symm.trans (hx'.eq_shown? hseen').2
  | @read u what r y look seen _ hseen hx hr =>
    cases hr' with
    | missing _ hseen' hx' => cases (hx.eq_shown? hseen).2.symm.trans (hx'.eq_shown? hseen').2
    | unstarted => exact .inr ⟨_, rfl, .inl rfl⟩
    | read _ hseen' hx' hr' =>
      cases (hx.eq_shown? hseen).2.symm.trans (hx'.eq_shown? hseen').2
      cases r with
      | error f => cases hv
      | ok a => exact (hr.unique ho hinj hm hr').accords v hv

end Single

end Survey
end LanguageServer
