import TaintFlow.Check.Shape
import TaintFlow.Proofs.Loading
import TaintFlow.Proofs.Provenance
import TaintFlow.Proofs.Stock
import TaintFlow.Proofs.Submissions
import TaintFlow.Proofs.Writing

/-
The form in which reports are written, and the check of that form. What the analysis reports is proper: every finding
was seen in some way, as explicit or as implicit, and all that a flow has passed are calls. So every entry that is
written has the documented fields, a list of flows that is not empty, and names with their places.

The check asks for places of one number, in the scoped edition also of two. The plain edition writes one number, so all
its entries pass. The scoped edition writes three, so none of its entries passes; without the nesting levels they
all do.
-/
namespace TaintFlow

open Listing

/-! ## Marks of flows -/

theorem Mark.IsCall.spread {k : Mark} (h : k.IsCall) : k.spread = .ok k := by
  obtain ⟨_, _, rfl⟩ := h
  rfl

/-- All that the flows have passed are calls. -/
def MultiLabel.PassedCalls {π : Type} (m : MultiLabel π) : Prop :=
  ∀ name s f, m.Has name s f → ∀ k ∈ f.marks, k.IsCall

/-- Every finding was seen in some way, as explicit or as implicit, and behind calls only. -/
structure Report.Proper (r : Report) : Prop where
  occupied : r.Occupied
  kind : ∀ s kind marks, r.Recorded s kind marks → kind.Known
  marks : ∀ s kind marks, r.Recorded s kind marks → ∀ k ∈ marks, k.IsCall

theorem Report.proper_empty : Report.Proper {} where
  occupied := Report.occupied_empty
  kind := fun s kind marks h => absurd h (Report.not_recorded_empty s kind marks)
  marks := fun s kind marks h => absurd h (Report.not_recorded_empty s kind marks)

theorem Report.Occupied.flag [SetOrder] {edition : Edition} {x : String} {spot : Spot} {m : Taint} {kind : FlowKind}
    {w : World} (h : w.report.Occupied) : ((Eval.flag edition x spot m kind).run w).2.report.Occupied := by
  rw [Eval.run_flag]
  split
  · exact h
  · exact Report.Occupied.each (fun e _ _ hr => hr.addTracked edition x _ kind e) h

theorem Report.Proper.flag [SetOrder] {edition : Edition} {x : String} {spot : Spot} {m : Taint} {kind : FlowKind}
    {w : World} (hr : w.report.Proper) (hkind : kind.Known) (hm : m.PassedCalls) :
    ((Eval.flag edition x spot m kind).run w).2.report.Proper := by
  refine ⟨hr.occupied.flag, fun s kind' marks hs => ?_, fun s kind' marks hs => ?_⟩
  · rcases Eval.recorded_flag_cases hs with hs | ⟨_, _, _, _, _, _, _, _, _, _, rfl, _⟩
    · exact hr.kind s kind' marks hs
    · exact hkind
  · rcases Eval.recorded_flag_cases hs with hs | ⟨i, f, _, _, hf, _, himprint, _⟩
    · exact hr.marks s kind' marks hs
    · have hcalls := hm _ s.source f hf
      have hmarks := Report.mem_of_imprint himprint fun k hk => (hcalls k hk).spread
      exact fun k hk => hcalls k (hmarks k hk)

/-- Flows pass calls, and the report is proper. -/
def Custody.passedCalls (edition : Edition) : Custody where
  edition := edition
  Kept p := ∀ m, p.Stores m → m.PassedCalls
  Later _ _ := True
  Sound _ m := m.PassedCalls
  Reported r := r.Proper
  refl _ := trivial
  trans _ _ := trivial

theorem Custody.lawful_passedCalls [SetOrder] (edition : Edition) : (passedCalls edition).Lawful fun _ => True := by
  constructor
  case later => exact fun _ hm => hm
  case stores => exact fun hp hm => hp _ hm
  case moves => exact fun hp _ _ hs => ⟨fun m hm => (hs m hm).elim (hp m) id, trivial⟩
  case combine => exact fun ha hb name s f hf => (MultiLabel.has_combine.1 hf).elim (ha name s f) (hb name s f)
  case clean => exact fun {p} _ name s f hf => absurd hf (p.not_has_clean name s f)
  case source =>
    intro p x spot m _ _ hm name s f hf
    rcases MultiLabel.has_addSource.1 hf with hf | ⟨rfl, rfl, -⟩
    · exact hm name s f hf
    · exact List.forall_mem_nil _
  case sanitized =>
    intro p r function spot m _ _ hm name s f hf
    obtain ⟨t, ht, g, hg, rfl⟩ := MultiLabel.has_addSanitizer.1 hf
    have hg := hm name s g ⟨t, ht, hg⟩
    split
    · intro k hk
      rcases Mark.mem_extend.1 hk with hk | rfl
      · exact hg k hk
      · exact ⟨function, spot.line, rfl⟩
    · exact hg
  case flag => exact fun hkind _ hr _ hm => hr.flag hkind hm

theorem Path.inherited_passedCalls : Inherited fun p => ∀ m, p.Stores m → m.PassedCalls where
  fork p h m hm := by
    obtain ⟨n, hn, rfl⟩ := Path.stores_fork hm
    exact fun name s f hf => h n hn name s f (MultiLabel.has_mapPatterns.1 hf)
  pop p h m hm := h m (Path.stores_pop hm)
  scope _ _ h := h

/-- Whatever the program and the patterns are, the report is proper. -/
theorem proper_analyseProgram [SetOrder] (edition : Edition) (limit : Nat) (patterns : List Pattern) (program : Stmt) :
    (analyseProgram edition limit patterns program).2.report.Proper := by
  have hsteps := (Custody.lawful_passedCalls edition).writes.upholds_analyse (fun _ => Iff.rfl)
    Path.inherited_passedCalls limit program fun _ _ => trivial
  have hstart : ∀ m, (Path.start patterns).Stores m → m.PassedCalls :=
    fun m hm => absurd hm (Path.not_stores_start patterns m)
  rw [report_analyseProgram]
  exact (hsteps [Path.start patterns] {} (List.forall_mem_singleton.2 hstart) Report.proper_empty).2.2.2

/-! ## Entries -/

/-- The results of a step that was taken for each item, seen through `g`. -/
theorem map_of_mapM_ok {α β γ : Type} {f : α → Except Fault β} {g : β → γ} {g' : α → γ}
    (hf : ∀ a b, f a = .ok b → g b = g' a) : ∀ {l : List α} {m : List β}, l.mapM f = .ok m → m.map g = l.map g'
  | [], _, h => by
    cases h
    rfl
  | a :: l, m, h => by
    rw [List.mapM_cons] at h
    obtain ⟨b, hb, h⟩ := bind_ok h
    obtain ⟨rest, hrest, h⟩ := bind_ok h
    cases h
    rw [List.map_cons, List.map_cons, hf a b hb, map_of_mapM_ok hf hrest]

/-- Ranking and sorting leave the findings as they are. -/
theorem Report.perm_of_entries {r : Report} {es : List Entry} (h : r.entries = .ok es) :
    es.Perm (r.findings.entries.map entryOf) := by
  obtain ⟨ranked, hranked, h⟩ := bind_ok h
  cases h
  have hmap : ranked.map (·.2) = r.findings.entries.map entryOf := by
    refine map_of_mapM_ok (fun f x hx => ?_) hranked
    obtain ⟨rank, -, hx⟩ := bind_ok hx
    cases hx
    rfl
  rw [← hmap]
  exact (List.mergeSort_perm ranked _).map _

/-- A report with one finding is written with one entry, if the name of the pattern has no underscore. -/
theorem Report.entries_of_single {r : Report} {s : Subject} {n : Nat} {sightings : List Sighting}
    (hf : r.findings.entries = [(s, numbered s.pattern n, sightings)]) (hplain : '_' ∉ s.pattern.toList)
    (hmet : s.pattern ∈ r.discovered) : r.entries = .ok [entryOf (s, numbered s.pattern n, sightings)] := by
  have hrank : ∀ f ∈ r.findings.entries, r.rank (entryOf f) = .ok (r.discovered.idxOf s.pattern, (n : Int)) := by
    rw [hf, List.forall_mem_singleton]
    exact rank_of_plain_name rfl hplain hmet
  have hentries := entries_of_rank hrank
  rwa [hf, List.map_singleton, List.mergeSort_singleton] at hentries

theorem Report.toDocument_of_single {r : Report} {s : Subject} {n : Nat} {sightings : List Sighting}
    (hf : r.findings.entries = [(s, numbered s.pattern n, sightings)]) (hplain : '_' ∉ s.pattern.toList)
    (hmet : s.pattern ∈ r.discovered) (edition : Edition) :
    r.toDocument edition = .ok (.list [(entryOf (s, numbered s.pattern n, sightings)).toDocument edition]) :=
  toDocument_of_entries (entries_of_single hf hplain hmet)

/-! ## The form of entries -/

namespace Document

/-- A name with `n` numbers. -/
def Located (n : Nat) (d : Document) : Prop :=
  ∃ (name : String) (numbers : List Int), numbers.length = n ∧ d = .list (.text name :: numbers.map .int)

/-- A kind of flow, with the calls that the flow has passed and their lines. -/
def IsSighting (d : Document) : Prop :=
  ∃ kind calls, (kind = "explicit" ∨ kind = "implicit") ∧ (∀ c ∈ calls, Located 1 c) ∧
    d = .list [.text kind, .list calls]

/-- A finding, with places of `n` numbers. -/
def IsFinding (n : Nat) (d : Document) : Prop :=
  ∃ name source sink flows, source.Located n ∧ sink.Located n ∧ flows ≠ [] ∧ (∀ f ∈ flows, f.IsSighting) ∧
    d = .record [("vulnerability", .text name), ("source", source), ("sink", sink), ("flows", .list flows)]

/-- A place without its last number. -/
def shorten : Document → Document
  | .list items => .list items.dropLast
  | d => d

/-- An entry without the nesting levels of its source and its sink. -/
def dropLevels : Document → Document
  | .record fields =>
    .record (fields.map fun f => if f.1 = "source" || f.1 = "sink" then (f.1, f.2.shorten) else f)
  | d => d

theorem Located.shorten {n : Nat} {d : Document} (h : d.Located (n + 1)) : d.shorten.Located n := by
  obtain ⟨name, numbers, hn, rfl⟩ := h
  refine ⟨name, numbers.dropLast, by rw [List.length_dropLast, hn]; rfl, ?_⟩
  have hne : numbers.map Document.int ≠ [] := by
    rw [Ne, List.map_eq_nil_iff, ← List.length_eq_zero_iff, hn]
    exact Nat.succ_ne_zero n
  rw [Document.shorten, List.dropLast_cons_of_ne_nil hne, List.map_dropLast]

theorem IsFinding.dropLevels {n : Nat} {d : Document} (h : d.IsFinding (n + 1)) : d.dropLevels.IsFinding n := by
  obtain ⟨name, source, sink, flows, hsource, hsink, hne, hflows, rfl⟩ := h
  exact ⟨name, source.shorten, sink.shorten, flows, hsource.shorten, hsink.shorten, hne, hflows, rfl⟩

end Document

/-- How many numbers an edition writes for a place. -/
def Edition.precision : Edition → Nat
  | .plain => 1
  | .scoped => 3

theorem Report.located_locate (edition : Edition) (name : String) (p : Position) :
    (locate edition name p).Located edition.precision :=
  ⟨name, p.parts edition, by cases edition <;> rfl, rfl⟩

/-- The entries of a proper report have the form of findings. -/
theorem Report.Proper.isFinding {r : Report} (h : r.Proper) (edition : Edition)
    {finding : Subject × String × List Sighting} (hf : finding ∈ r.findings.entries) :
    ((entryOf finding).toDocument edition).IsFinding edition.precision := by
  obtain ⟨s, name, sightings⟩ := finding
  have hget := Table.mem_entries.1 hf
  refine ⟨name, _, _, _, located_locate edition s.source s.sourceAt, located_locate edition s.sink s.sinkAt, ?_, ?_,
    rfl⟩
  · rw [Ne, List.map_eq_nil_iff]
    exact h.occupied s name sightings hget
  · intro d hd
    obtain ⟨⟨kind, marks⟩, hs, rfl⟩ := List.mem_map.1 hd
    have hrecorded : r.Recorded s kind marks := ⟨name, sightings, hget, hs⟩
    refine ⟨kind.name, marks.map Mark.toDocument, ?_, fun c hc => ?_, rfl⟩
    · rcases h.kind s kind marks hrecorded with rfl | rfl
      · exact .inl rfl
      · exact .inr rfl
    · obtain ⟨k, hk, rfl⟩ := List.mem_map.1 hc
      obtain ⟨function, line, rfl⟩ := h.marks s kind marks hrecorded k hk
      exact ⟨function, [line], rfl, rfl⟩

/-- A proper report that is written is a list of findings, one for each that was made. -/
theorem Report.Proper.toDocument {r : Report} (h : r.Proper) {edition : Edition} {doc : Document}
    (hdoc : r.toDocument edition = .ok doc) : ∃ entries, doc = .list entries ∧
      entries.length = r.findings.entries.length ∧ ∀ e ∈ entries, e.IsFinding edition.precision := by
  obtain ⟨es, hes, hdoc⟩ := bind_ok hdoc
  cases hdoc
  have hperm := perm_of_entries hes
  refine ⟨_, rfl, by simpa using hperm.length_eq, fun d hd => ?_⟩
  obtain ⟨e, he, rfl⟩ := List.mem_map.1 hd
  obtain ⟨finding, hf, rfl⟩ := List.mem_map.1 (hperm.mem_iff.1 he)
  exact h.isFinding edition hf

/-! ## The check -/

namespace Check

open Document

variable {edition : Edition}

theorem isInstruction_located {n : Nat} {d : Document} (h : d.Located n) :
    isInstruction edition d = decide (n = 1 ∨ edition = .scoped ∧ n = 2) := by
  obtain ⟨name, numbers, rfl, rfl⟩ := h
  rcases numbers with _ | ⟨line, _ | ⟨column, _ | ⟨level, rest⟩⟩⟩
  · cases edition <;> rfl
  · cases edition <;> rfl
  · cases edition <;> rfl
  · simp [isInstruction]

theorem isFlow_of_isSighting {d : Document} (h : d.IsSighting) : isFlow edition d = true := by
  obtain ⟨kind, calls, hkind, hcalls, rfl⟩ := h
  have hall : calls.all (isInstruction edition) = true := by
    rw [List.all_eq_true]
    intro c hc
    rw [isInstruction_located (hcalls c hc)]
    rfl
  rw [isFlow, isSanitizers, hall]
  rcases hkind with rfl | rfl <;> rfl

/-- A document in the form of a finding has the fields and the flows that the check asks for; what is left to check are
the places. -/
theorem isEntry_of_fields {name : String} {source sink : Document} {flows : List Document} (hne : flows ≠ [])
    (hflows : ∀ f ∈ flows, f.IsSighting) :
    isEntry edition (.record
      [("vulnerability", .text name), ("source", source), ("sink", sink), ("flows", .list flows)]) = (do
        require (isInstruction edition source) (wrongType "source" source)
        require (isInstruction edition sink) (wrongType "sink" sink)
        return true) := by
  have hkeys : requireKeys "vulnerability" ["vulnerability", "source", "sink", "flows"] (.record
      [("vulnerability", .text name), ("source", source), ("sink", sink), ("flows", .list flows)]) = .ok () := by
    rfl
  have hall : isFlows edition (.list flows) = .ok true := by
    have hflows : flows.all (isFlow edition) = true :=
      List.all_eq_true.2 fun f hf => isFlow_of_isSighting (hflows f hf)
    show Except.ok (!flows.isEmpty && flows.all (isFlow edition)) = _
    rw [hflows, List.isEmpty_eq_false_iff.2 hne]
    rfl
  rw [isEntry, hkeys]
  show (do
    require (isInstruction edition source) (wrongType "source" source)
    require (isInstruction edition sink) (wrongType "sink" sink)
    require (← isFlows edition (.list flows)) (wrongType "flows" (.list flows))
    return true) = _
  rw [hall]
  rfl

/-- A finding passes the check if its places are written with one number, or in the scoped edition with two. -/
theorem isEntry_of_isFinding {n : Nat} {d : Document} (h : d.IsFinding n) (hn : n = 1 ∨ edition = .scoped ∧ n = 2) :
    isEntry edition d = .ok true := by
  obtain ⟨name, source, sink, flows, hsource, hsink, hne, hflows, rfl⟩ := h
  rw [isEntry_of_fields hne hflows, isInstruction_located hsource, isInstruction_located hsink, decide_eq_true hn]
  rfl

/-- With other places it is refused for its source. -/
theorem isEntry_of_isFinding_ne {n : Nat} {d : Document} (h : d.IsFinding n)
    (hn : ¬ (n = 1 ∨ edition = .scoped ∧ n = 2)) :
    ∃ source, d.field? "source" = some source ∧ isEntry edition d = .error (.unmet (wrongType "source" source)) := by
  obtain ⟨name, source, sink, flows, hsource, hsink, hne, hflows, rfl⟩ := h
  refine ⟨source, rfl, ?_⟩
  rw [isEntry_of_fields hne hflows, isInstruction_located hsource, decide_eq_false hn]
  rfl

end Check

/-! ## Reports against the check -/

/-- Patterns that pass the check can be read, and then every entry of a report of the plain edition passes the check of
reports: it has the four fields, its source and its sink are names with a line, and it has flows, each a kind with
the calls it has passed. -/
theorem plain_reports_pass_check [SetOrder] {file : List Document} (h : ∀ d ∈ file, Check.isPattern d = .ok true) :
    ∃ patterns, PatternFile.patterns .plain (.list file) = .ok patterns ∧ ∀ limit program doc,
      (analyseProgram .plain limit patterns program).2.report.toDocument .plain = .ok doc → ∃ entries,
        doc = .list entries ∧
        entries.length = (analyseProgram .plain limit patterns program).2.report.findings.entries.length ∧
        ∀ e ∈ entries, e.IsFinding 1 ∧ Check.isEntry .plain e = .ok true := by
  obtain ⟨patterns, hpatterns⟩ := PatternFile.patterns_ok h
  refine ⟨patterns, hpatterns, fun limit program doc hdoc => ?_⟩
  obtain ⟨entries, rfl, hlength, hform⟩ := (proper_analyseProgram .plain limit patterns program).toDocument hdoc
  refine ⟨entries, rfl, hlength, fun e he => ⟨hform e he, ?_⟩⟩
  exact Check.isEntry_of_isFinding (hform e he) (.inl rfl)

/-- The report of `sink(esc(get()))` is one entry, which passes. -/
theorem plain_report_of_sanitized_call_passes_check :
    let texts : List String → Document := fun names => .list (names.map .text)
    let file : List Document := [.record [("vulnerability", .text "A"), ("sources", texts ["get"]),
      ("sanitizers", texts ["esc"]), ("sinks", texts ["sink"]), ("implicit", .text "no")]]
    let spot : Spot := { line := 1 }
    let program : Stmt := .eval (.call "" "sink" [.call "" "esc" [.call "" "get" [] spot] spot] spot)
    let written : Document := .record [("vulnerability", .text "A_1"), ("source", .list [.text "get", .int 1]),
      ("sink", .list [.text "sink", .int 1]),
      ("flows", .list [.list [.text "explicit", .list [.list [.text "esc", .int 1]]]])]
    (∀ d ∈ file, Check.isPattern d = .ok true) ∧ ∃ patterns, PatternFile.patterns .plain (.list file) = .ok patterns ∧
      (analyseProgram .plain 5 patterns program).2.report.toDocument .plain = .ok (.list [written]) ∧
      Check.isEntry .plain written = .ok true := by
  intro texts file spot program written
  have hfile : ∀ d ∈ file, Check.isPattern d = .ok true := List.forall_mem_singleton.2 rfl
  let a : Pattern :=
    { name := "A", sources := ["get"], sinks := ["sink"], modes := [("esc", .text "show")], implicit := false }
  have hfindings : (analyseProgram .plain 5 [a] program).2.report.findings.entries =
      [(⟨"A", "get", { line := 1 }, "sink", { line := 1 }⟩, Report.numbered "A" 1,
        [⟨.explicit, [.sanitizer "esc" 1]⟩])] := by
    decide +kernel
  have hwritten : (analyseProgram .plain 5 [a] program).2.report.toDocument .plain = .ok (.list [written]) :=
    Report.toDocument_of_single hfindings (by decide) (by decide +kernel) .plain
  obtain ⟨patterns, hpatterns, hreports⟩ := plain_reports_pass_check hfile
  have hread : (PatternFile.patterns .plain (.list file)).toOption = some [a] := by decide +kernel
  rw [hpatterns] at hread
  cases hread
  obtain ⟨entries, hentries, -, hpass⟩ := hreports 5 program _ hwritten
  cases hentries
  exact ⟨hfile, _, hpatterns, hwritten, (hpass written (List.mem_singleton_self _)).2⟩

/-- A report of the scoped edition passes the check of reports only if it is empty: every entry is refused for its
source, which has a level besides line and column. Without levels every entry passes. -/
theorem scoped_report_passes_check_iff_empty [SetOrder] (limit : Nat) (patterns : List Pattern) (program : Stmt)
    {doc : Document} (h : (analyseProgram .scoped limit patterns program).2.report.toDocument .scoped = .ok doc) :
    ∃ entries, doc = .list entries ∧
      entries.length = (analyseProgram .scoped limit patterns program).2.report.findings.entries.length ∧
      ((∀ e ∈ entries, Check.isEntry .scoped e = .ok true) ↔ entries = []) ∧
      ∀ e ∈ entries, e.IsFinding 3 ∧ Check.isEntry .scoped e.dropLevels = .ok true ∧ ∃ source,
        e.field? "source" = some source ∧
        Check.isEntry .scoped e = .error (.unmet (Check.wrongType "source" source)) := by
  obtain ⟨entries, rfl, hlength, hform⟩ := (proper_analyseProgram .scoped limit patterns program).toDocument h
  have hrefused : ∀ e ∈ entries, ∃ source, e.field? "source" = some source ∧
      Check.isEntry .scoped e = .error (.unmet (Check.wrongType "source" source)) :=
    fun e he => Check.isEntry_of_isFinding_ne (hform e he) (by decide)
  refine ⟨entries, rfl, hlength, ⟨fun hpass => ?_, ?_⟩, fun e he => ⟨hform e he, ?_, hrefused e he⟩⟩
  · rw [List.eq_nil_iff_forall_not_mem]
    intro e he
    obtain ⟨source, -, hsource⟩ := hrefused e he
    cases hsource.symm.trans (hpass e he)
  · rintro rfl
    exact List.forall_mem_nil _
  · exact Check.isEntry_of_isFinding (hform e he).dropLevels (.inr ⟨rfl, rfl⟩)

/-- In `x = get()` and `if c: sink(esc(x))` the sink stands one level deeper than the source. The one entry of the
report passes without the levels. -/
theorem scoped_report_of_nested_sink_passes_without_levels :
    let a : Pattern :=
      { name := "A", sources := ["get"], sinks := ["sink"], modes := [("esc", .text "show")], implicit := false }
    let esc : Expr := .call "" "esc" [.name "x" { line := 3, column := 13 }] { line := 3, column := 9 }
    let sink : Expr := .call "" "sink" [esc] { line := 3, column := 4 }
    let program : Stmt := .block [
      .assign [.name "x"] (.call "" "get" [] { line := 1, column := 4 }) { line := 1 },
      .branch (.name "c" { line := 2, column := 3 }) (.block [.eval sink]) (.block [])]
    let written : Document := .record [("vulnerability", .text "A_1"),
      ("source", .list [.text "get", .int 1, .int 4, .int 0]), ("sink", .list [.text "sink", .int 3, .int 4, .int 1]),
      ("flows", .list [.list [.text "explicit", .list [.list [.text "esc", .int 3]]]])]
    (analyseProgram .scoped 5 [a] program).2.report.toDocument .scoped = .ok (.list [written]) ∧
      Check.isEntry .scoped written ≠ .ok true ∧ Check.isEntry .scoped written.dropLevels = .ok true := by
  intro a esc sink program written
  have hfindings : (analyseProgram .scoped 5 [a] program).2.report.findings.entries =
      [(⟨"A", "get", { line := 1, column := 4 }, "sink", { line := 3, column := 4, scope := 1 }⟩, Report.numbered "A" 1,
        [⟨.explicit, [.sanitizer "esc" 3]⟩])] := by
    decide +kernel
  have hwritten : (analyseProgram .scoped 5 [a] program).2.report.toDocument .scoped = .ok (.list [written]) :=
    Report.toDocument_of_single hfindings (by decide) (by decide +kernel) .scoped
  obtain ⟨entries, hentries, -, hempty, hpass⟩ := scoped_report_passes_check_iff_empty 5 [a] program hwritten
  cases hentries
  refine ⟨hwritten, fun hpasses => ?_, (hpass written (List.mem_singleton_self _)).2.1⟩
  cases hempty.1 (List.forall_mem_singleton.2 hpasses)

/-- The report of `sink(get())` has one entry, and it is refused. -/
theorem scoped_report_of_call_is_refused :
    let a : Pattern := { name := "A", sources := ["get"], sinks := ["sink"], modes := [], implicit := false }
    let program : Stmt := .eval (.call "" "sink" [.call "" "get" [] { line := 1, column := 5 }] { line := 1 })
    ∃ written, (analyseProgram .scoped 5 [a] program).2.report.toDocument .scoped = .ok (.list [written]) ∧
      Check.isEntry .scoped written = .error (.unmet "source attribute is of wrong type: ['get', 1, 5, 0]") := by
  intro a program
  have hfindings : (analyseProgram .scoped 5 [a] program).2.report.findings.entries =
      [(⟨"A", "get", { line := 1, column := 5 }, "sink", { line := 1 }⟩, Report.numbered "A" 1,
        [⟨.explicit, []⟩])] := by
    decide +kernel
  have hmessage : Check.wrongType "source" (.list [.text "get", .int 1, .int 5, .int 0]) =
      "source attribute is of wrong type: ['get', 1, 5, 0]" := by
    decide +kernel
  refine ⟨_, Report.toDocument_of_single hfindings (by decide) (by decide +kernel) .scoped, ?_⟩
  rw [← hmessage]
  rfl

end TaintFlow
