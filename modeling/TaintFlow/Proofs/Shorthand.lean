import TaintFlow.Proofs.AssignFlow
import TaintFlow.Proofs.Log

/-
Assignments with an annotation or an operator. Each stands for a plain assignment, but at its line, without its column.
So it makes of every path what that assignment makes of it and hands over the same flows, except that those which reach
the assigned names as sinks are handed over for column 0. An annotation without a value stands for the
assignment of a constant: the variable counts as assigned from then on, and it loses its flows.
-/
namespace TaintFlow

open Analysis

/-- The statement is short for an assignment of the value to the target at the spot. -/
inductive Stmt.StandsFor : Stmt → Target → Expr → Spot → Prop where
  | annotated (target : Target) (value : Expr) (spot : Spot) :
    StandsFor (.annotated target value spot) target value spot
  | augmented (target : Target) (current value : Expr) (spot : Spot) :
    StandsFor (.augmented target current value spot) target (.binary current value) spot

theorem Stmt.StandsFor.analyse_eq [SetOrder] {s : Stmt} {target : Target} {value : Expr} {spot : Spot}
    (h : s.StandsFor target value spot) (limit : Nat) :
    s.analyse .scoped limit = (Stmt.assign [target] value { line := spot.line }).analyse .scoped limit := by
  cases h <;> simp only [Stmt.analyse.eq_def]

/-! ## Submissions that record nothing -/

namespace Report

theorem each_eq_self {α : Type} {step : α → Report → Report × Option Fault} {l : List α} {r r' : Report} :
    (∀ a ∈ l, ∀ r r', step a r = (r', none) → r' = r) → each step l r = (r', none) → r' = r := by
  induction l generalizing r with
  | nil =>
    intro _ h
    cases h
    rfl
  | cons a l ih =>
    intro hstep h
    rw [List.forall_mem_cons] at hstep
    rw [each] at h
    have ha := hstep.1 r
    generalize step a r = x at h ha
    obtain ⟨r₁, fault?⟩ := x
    cases fault? with
    | none => exact (ih hstep.2 h).trans (ha r₁ rfl)
    | some f => cases h

/-- Paths of which none is shown leave the report as it is. -/
theorem addGroup_eq_self [SetOrder] {kind : FlowKind} {p : Pattern} {s : Subject} {paths : List (List Mark)}
    {r r' : Report} (hnone : ∀ path ∈ paths, ∀ marks, imprint .scoped p path ≠ .ok (some marks))
    (h : addGroup .scoped kind p s paths r = .ok r') : r' = r := by
  obtain ⟨shown, hshown, h⟩ := bind_ok h
  split at h
  · cases h
    rfl
  · rename_i hne
    obtain ⟨new, hnew, -⟩ := bind_ok h
    have hthin : thin shown ≠ [] := by simpa [thin] using hne
    obtain ⟨⟨kind', marks⟩, hx⟩ := List.exists_mem_of_ne_nil new (mapM_ne_nil hnew hthin)
    obtain ⟨-, q, hq, hmarks⟩ := (mem_sightings hnew).1 hx
    obtain ⟨path, hpath, hq⟩ := (mem_shownPaths hshown).1 hq
    exact absurd (imprint_scoped.2 ⟨q, hq, hmarks⟩) (hnone path hpath marks)

/-- A submission that records nothing leaves the report as it is. -/
theorem submit_eq_self [SetOrder] {c : Submission} (hnone : ∀ s kind marks, ¬ c.Records .scoped s kind marks)
    {r r' : Report} (h : submit .scoped c r = (r', none)) : r' = r := by
  refine each_eq_self (fun e he r r' h => ?_) h
  obtain ⟨t, ht, rfl⟩ := List.mem_map.1 he
  obtain ⟨⟨name, t⟩, hn, rfl⟩ := List.mem_map.1 ht
  rw [addTracked.eq_def] at h
  split at h
  · cases h
    rfl
  · rename_i himplicit
    refine each_eq_self (fun entry hentry r r' h => each_eq_self (fun group hgroup r r' h => ?_) h) h
    dsimp only [attempt] at h
    generalize hadd : addGroup .scoped c.kind _ _ group.2 r = out at h
    cases out with
    | error f => cases h
    | ok r₁ =>
      cases h
      refine addGroup_eq_self (fun path hpath marks himprint => ?_) hadd
      refine hnone ⟨t.pattern.name, entry.1, group.1, c.sink, c.sinkAt⟩ c.kind marks
        ⟨name, t, Table.mem_entries.1 hn, rfl, fun hk => ?_, rfl, rfl, rfl, ⟨group.1, path⟩, ?_, rfl, himprint⟩
      · simpa [hk] using himplicit
      · exact ⟨entry.2, Table.mem_entries.1 hentry, mem_groupByPosition.1 ⟨group.2, hgroup, hpath⟩⟩

theorem submitAll_cons_ok [SetOrder] {edition : Edition} {c : Submission} {log : List Submission} {r : Report}
    (h : (submitAll edition (c :: log) r).2 = none) :
    ∃ r', submit edition c r = (r', none) ∧ submitAll edition (c :: log) r = submitAll edition log r' := by
  unfold submitAll at h ⊢
  rw [each] at h ⊢
  generalize submit edition c r = x at h ⊢
  obtain ⟨r', fault?⟩ := x
  cases fault? with
  | none => exact ⟨r', rfl, rfl⟩
  | some f => cases h

/-- Logs that differ in submissions that record nothing leave the same report. -/
theorem submitAll_eq [SetOrder] {log log' : List Submission}
    (h : List.Forall₂ (fun c c' => c = c' ∨ ∀ s kind marks, ¬ c.Records .scoped s kind marks ∧
      ¬ c'.Records .scoped s kind marks) log log') : ∀ {r : Report}, (submitAll .scoped log r).2 = none →
    (submitAll .scoped log' r).2 = none → submitAll .scoped log r = submitAll .scoped log' r := by
  induction h with
  | nil => exact fun _ _ => rfl
  | @cons c c' log log' hc _ ih =>
    intro r hok hok'
    obtain ⟨r₁, hr₁, heq⟩ := submitAll_cons_ok hok
    obtain ⟨r₁', hr₁', heq'⟩ := submitAll_cons_ok hok'
    have hsame : r₁ = r₁' := by
      rcases hc with rfl | hnone
      · rw [hr₁] at hr₁'
        exact (Prod.mk.inj hr₁').1
      · rw [submit_eq_self (fun s kind marks => (hnone s kind marks).1) hr₁,
          submit_eq_self (fun s kind marks => (hnone s kind marks).2) hr₁']
    subst hsame
    rw [heq] at hok ⊢
    rw [heq'] at hok' ⊢
    exact ih hok hok'

end Report

/-! ## The column of the statement -/

/-- The first submission is for a name at the spot, and the second is the same for column 0. -/
structure Submission.Outdents (names : List String) (spot : Spot) (c c' : Submission) : Prop where
  name : c.sink ∈ names
  place : ∃ scope, c.sinkAt = Edition.place .scoped spot scope
  moved : c' = { c with sinkAt := { c.sinkAt with column := 0 } }

section Assignments

variable {target : Target} {value : Expr} {spot : Spot}

/-- Submissions of an assignment at a spot and at its line. What is read in the assignment is handed over alike. -/
def Submission.Aligns (target : Target) (value : Expr) (spot : Spot) (c c' : Submission) : Prop :=
  c = c' ∧ c.Raised .scoped (· ∈ target.readSites ++ value.sites) ∨ c.Outdents target.names spot c'

theorem Eval.pairs_assign_line [SetOrder] (target : Target) (value : Expr) (spot : Spot) :
    Pairs .scoped (Submission.Aligns target value spot) (fun _ => True) (assign .scoped [target] value spot)
      (assign .scoped [target] value { line := spot.line }) := by
  have hread : ∀ c : Submission, c.Raised .scoped (· ∈ target.readSites ++ value.sites) →
      c.Aligns target value spot c :=
    fun c hc => .inl ⟨rfl, hc⟩
  refine pairs_assign_of hread (· ∈ target.names)
    (List.forall_mem_singleton.2 ⟨fun x hx => hx, fun site hs => List.mem_append_left _ hs⟩)
    (fun site hs => List.mem_append_right _ hs) fun x hx m kind => pairs_flag_of fun p => .inr ?_
  exact ⟨hx, ⟨p.scope, rfl⟩, rfl⟩

theorem Stmt.pairs_assign_line [SetOrder] (target : Target) (value : Expr) (spot : Spot) (limit : Nat) :
    Analysis.Pairs .scoped (Submission.Aligns target value spot)
      ((Stmt.assign [target] value spot).analyse .scoped limit)
      ((Stmt.assign [target] value { line := spot.line }).analyse .scoped limit) := by
  rw [Stmt.analyse.eq_def, Stmt.analyse.eq_def]
  exact pairs_onEach (Eval.pairs_assign_line target value spot).discard

theorem Submission.Records.sinkAt [SetOrder] {edition : Edition} {c : Submission} {s : Subject} {kind : FlowKind}
    {marks : List Mark} (h : c.Records edition s kind marks) : s.sinkAt = c.sinkAt := by
  obtain ⟨name, t, -, -, -, -, -, hat, -⟩ := h
  exact hat

/-- If the second submission records nothing at column 0, neither of them records anything. -/
theorem Submission.Outdents.silent [SetOrder] {names : List String} {c c' : Submission} (h : c.Outdents names spot c')
    (hnone : ∀ s kind marks, s.sinkAt.line = spot.line → s.sinkAt.column = 0 → ¬ c'.Records .scoped s kind marks)
    (s : Subject) (kind : FlowKind) (marks : List Mark) :
    ¬ c.Records .scoped s kind marks ∧ ¬ c'.Records .scoped s kind marks := by
  obtain ⟨scope, hat⟩ := h.place
  have hplace : c'.sinkAt.line = spot.line ∧ c'.sinkAt.column = 0 := by
    rw [h.moved, hat]
    exact ⟨rfl, rfl⟩
  constructor
  · rintro ⟨name, t, ht, hkind, himplicit, hpattern, hsink, -, hflow⟩
    refine hnone { s with sinkAt := c'.sinkAt } kind marks hplace.1 hplace.2 ?_
    rw [h.moved]
    exact ⟨name, t, ht, hkind, himplicit, hpattern, hsink, rfl, hflow⟩
  · intro hs
    refine hnone s kind marks ?_ ?_ hs
    · rw [hs.sinkAt, hplace.1]
    · rw [hs.sinkAt, hplace.2]

/-- Nothing but the assigned names is at column 0 of the line of the statement, unless the statement is. -/
def Indented (target : Target) (value : Expr) (spot : Spot) : Prop :=
  ∀ site ∈ target.readSites ++ value.sites, site.spot = { line := spot.line } → spot.column = 0

theorem Submission.Aligns.column {c c' : Submission} (h : c.Aligns target value spot c')
    (hindented : Indented target value spot) (hline : c.sinkAt.line = spot.line) (hcolumn : c.sinkAt.column = 0) :
    spot.column = 0 := by
  rcases h with ⟨-, hc⟩ | hc
  · obtain ⟨site, hs, -, scope, hat⟩ := hc.at_site
    rw [hat] at hline hcolumn
    refine hindented site hs ?_
    cases hsite : site.spot
    rw [hsite] at hline hcolumn
    simp_all [Edition.place]
  · obtain ⟨scope, hat⟩ := hc.place
    rw [hat] at hcolumn
    exact hcolumn

theorem Submission.Aligns.eq {c c' : Submission} (h : c.Aligns target value spot c') (hcolumn : spot.column = 0) :
    c = c' := by
  rcases h with ⟨rfl, -⟩ | hc
  · rfl
  · obtain ⟨scope, hat⟩ := hc.place
    have hat' : c.sinkAt = { c.sinkAt with column := 0 } := by
      rw [hat]
      simp [Edition.place, hcolumn]
    rw [hc.moved, ← hat']

/-- The statement acts as the assignment on every report if it is at column 0 or reports nothing there. -/
theorem logs_eq_iff [SetOrder] {α : Type} {run run' : Report → Except Fault α × Report} {a : α}
    {log log' : List Submission} (h : Logs .scoped run (.ok a) log) (h' : Logs .scoped run' (.ok a) log')
    (hlogs : List.Forall₂ (Submission.Aligns target value spot) log log') (hindented : Indented target value spot) :
    run' = run ↔ spot.column = 0 ∨ ∀ s kind marks, s.sinkAt.line = spot.line → s.sinkAt.column = 0 →
      ¬ (run' {}).2.Recorded s kind marks := by
  constructor
  · intro heq
    refine or_iff_not_imp_left.2 fun hne s kind marks hline hcolumn hs => hne ?_
    rw [heq, h.recorded] at hs
    obtain ⟨c, hc, hs⟩ := hs.resolve_left (Report.not_recorded_empty s kind marks)
    obtain ⟨c', -, halign⟩ := forall₂_mem_right hlogs.flip c hc
    rw [hs.sinkAt] at hline hcolumn
    exact Submission.Aligns.column halign hindented hline hcolumn
  · intro hor
    have hsame : List.Forall₂ (fun c c' => c = c' ∨ ∀ s kind marks, ¬ c.Records .scoped s kind marks ∧
        ¬ c'.Records .scoped s kind marks) log log' := by
      rcases hor with hcolumn | hnone
      · exact hlogs.imp fun c c' halign => .inl (halign.eq hcolumn)
      · -- what is handed over for column 0 would be recorded there
        have hright : ∀ c' ∈ log', ∀ s kind marks, s.sinkAt.line = spot.line → s.sinkAt.column = 0 →
            ¬ c'.Records .scoped s kind marks := fun c' hc' s kind marks hline hcolumn hs =>
          hnone s kind marks hline hcolumn (h'.recorded.2 (.inr ⟨c', hc', hs⟩))
        refine ((List.forall₂_and_left _ _).2 ⟨hright, hlogs.flip⟩).flip.imp fun c c' hcc' => ?_
        exact hcc'.2.imp And.left fun hout => hout.silent hcc'.1
    funext r
    rw [h.run_eq r, h'.run_eq r, Report.submitAll_eq hsame (h.added a rfl r) (h'.added a rfl r)]

end Assignments

/-! ## Annotations without a value -/

/-- What becomes of a path when a variable is declared: the variable counts as assigned and has no flows. -/
structure Path.Declares (x : String) (p q : Path) : Prop where
  patterns : q.patterns = p.patterns
  initialized : ∀ y, y ∈ q.initialized ↔ y ∈ p.initialized ∨ y = x
  flows : ∀ y name s f, q.Has y name s f ↔ y ≠ x ∧ p.Has y name s f

/-- Nothing is reported but flows through conditions that reach the variable as a sink. -/
def Report.AddsImplicit (x : String) (r r' : Report) : Prop :=
  ∀ s kind marks, r'.Recorded s kind marks → r.Recorded s kind marks ∨ kind = .implicit ∧ s.sink = x

theorem Eval.declares_assign [SetOrder] {edition : Edition} {x : String} {spot : Spot} {w v : World} {r : Taint × Taint}
    (h : (assign edition [.name x] .missing spot).run w = (.ok r, v)) :
    w.path.Declares x v.path ∧ w.report.AddsImplicit x v.report := by
  have hnames : (assign edition (([] ++ [x]).map .name) .missing spot).run w = (.ok r, v) := h
  obtain ⟨e, k, u, u', he, hk, hm, hassign⟩ := assign_names_ok hnames
  rw [Expr.evaluate.eq_def] at he hk
  cases he
  cases hk
  have hclean : ∀ name s f, ¬ r.1.Has name s f := fun name s f hf => Path.not_has_clean _ name s f ((hm name s f).1 hf)
  obtain ⟨-, v₁, v₂, hexplicit, himplicit, hreport, hpath⟩ := assignName_ok hassign
  refine ⟨⟨by rw [hpath]; rfl, fun y => by rw [hpath]; exact Listing.mem_adjoin, fun y name s f => ?_⟩, ?_⟩
  · rw [hpath, Path.has_assign]
    by_cases hy : y = x
    · simp [hy, hclean name s f]
    · simp only [hy, if_false, ne_eq, not_false_eq_true, true_and]
      rfl
  · intro s kind marks hs
    rw [hreport] at hs
    have himp : ((flag edition x spot r.2 .implicit).run v₁).2.report.Recorded s kind marks := by rwa [himplicit]
    rcases recorded_flag_cases himp with hs | ⟨_, _, -, -, -, -, -, -, hsink, -, hkind, -⟩
    · have hexp : ((flag edition x spot r.1 .explicit).run
          ⟨([] ++ [x]).foldl Path.markInitialized w.path, w.report⟩).2.report.Recorded s kind marks := by
        rwa [hexplicit]
      rcases recorded_flag_cases hexp with hs | ⟨i, f, -, -, hf, -⟩
      · exact .inl hs
      · exact absurd hf (hclean _ _ _)
    · exact .inr ⟨hkind, hsink⟩

theorem Stmt.declares_annotated [SetOrder] {x : String} {spot : Spot} {limit : Nat} {paths out : List Path}
    {r r' : Report}
    (h : ((Stmt.annotated (.name x) .missing spot).analyse .scoped limit).outcome paths r = (.ok out, r')) :
    List.Forall₂ (Path.Declares x) paths out ∧ r.AddsImplicit x r' := by
  rw [Stmt.analyse.eq_def] at h
  induction paths generalizing out r with
  | nil =>
    cases h
    exact ⟨.nil, fun _ _ _ hs => .inl hs⟩
  | cons p rest ih =>
    rw [outcome_onEach_cons] at h
    obtain ⟨q, r₁, hq, h⟩ := chain_ok h
    obtain ⟨others, r₂, hothers, h⟩ := chain_ok h
    cases h
    obtain ⟨hrest, hlater⟩ := ih hothers
    obtain ⟨taint, v, hassign, hdone⟩ := Eval.bind_ok (Eval.outcome_ok hq)
    cases hdone
    obtain ⟨hpath, hreport⟩ := Eval.declares_assign hassign
    refine ⟨.cons hpath hrest, fun s kind marks hs => ?_⟩
    rcases hlater s kind marks hs with hs | hs
    · exact hreport s kind marks hs
    · exact .inr hs

/-! ## The statements as a whole -/

/-- An annotated or augmented assignment makes of all paths what the assignment does that it is short for, and hands
over the same, except that flows to the assigned names are handed over for column 0. The two agree on every
report if and only if the statement is at column 0 or reports nothing for column 0 of its line, where nothing that
it reads stands there.

An annotation without a value is no exception: the variable that is declared counts as assigned and loses its flows. -/
theorem shorthand_assignments [SetOrder] (limit : Nat) :
    (∀ (s : Stmt) (target : Target) (value : Expr) (spot : Spot) (paths : List Path), s.StandsFor target value spot →
      ∃ result log log',
        Logs .scoped (((Stmt.assign [target] value spot).analyse .scoped limit).outcome paths) result log ∧
        Logs .scoped ((s.analyse .scoped limit).outcome paths) result log' ∧
        List.Forall₂ (fun c c' => c = c' ∨ c.Outdents target.names spot c') log log' ∧
        ((∃ out, result = .ok out) → Indented target value spot →
          ((s.analyse .scoped limit).outcome paths =
              ((Stmt.assign [target] value spot).analyse .scoped limit).outcome paths ↔
            spot.column = 0 ∨ ∀ subject kind marks, subject.sinkAt.line = spot.line → subject.sinkAt.column = 0 →
              ¬ ((s.analyse .scoped limit).outcome paths {}).2.Recorded subject kind marks))) ∧
    ∀ (x : String) (spot : Spot) (paths out : List Path) (r r' : Report),
      ((Stmt.annotated (.name x) .missing spot).analyse .scoped limit).outcome paths r = (.ok out, r') →
        List.Forall₂ (Path.Declares x) paths out ∧ r.AddsImplicit x r' := by
  refine ⟨fun s target value spot paths hs => ?_, fun x spot paths out r r' h => Stmt.declares_annotated h⟩
  obtain ⟨result, log, log', hassign, hshort, hlogs, -⟩ := Stmt.pairs_assign_line target value spot limit paths
  rw [← hs.analyse_eq limit] at hshort
  refine ⟨result, log, log', hassign, hshort, hlogs.imp fun c c' h => h.imp_left And.left, ?_⟩
  rintro ⟨out, rfl⟩ hindented
  exact logs_eq_iff hassign hshort hlogs hindented

/-- `sink: int = get()` at column 0 acts as `sink = get()` there, and `x: int` takes the flow of `get` away that
`x = get()` left. -/
theorem shorthand_at_line_start :
    let a : Pattern :=
      { name := "A", sources := ["get"], sinks := ["sink"], modes := [], implicit := false }
    let get : Expr := .call "" "get" [] { line := 1, column := 12 }
    let run (s : Stmt) (paths : List Path) : Report → Except Fault (List Path) × Report :=
      (s.analyse .scoped 1).outcome paths
    let p : Path := ((Eval.assign .scoped [.name "x"] get { line := 1 }).run ⟨Path.start [a], {}⟩).2.path
    run (.annotated (.name "sink") get { line := 1 }) [Path.start [a]] =
        run (.assign [.name "sink"] get { line := 1 }) [Path.start [a]] ∧
      p.Has "x" "A" "get" { position := { line := 1, column := 12 } } ∧
      ∃ q r, run (.annotated (.name "x") .missing { line := 2 }) [p] {} = (.ok [q], r) ∧
        ∀ name s f, ¬ q.Has "x" name s f := by
  intro a get run p
  have hget : ∃ m ∈ p.labels.get? "x", m.Has "A" "get" { position := { line := 1, column := 12 } } := by decide +kernel
  obtain ⟨hshort, hdeclare⟩ := shorthand_assignments 1
  refine ⟨?_, hget, ?_⟩
  · obtain ⟨result, log, log', hassign, -, -, hiff⟩ :=
      hshort _ _ _ _ [Path.start [a]] (.annotated (.name "sink") get { line := 1 })
    have hok : (run (.assign [.name "sink"] get { line := 1 }) [Path.start [a]] {}).1.isOk = true := by decide +kernel
    rw [show run _ _ {} = _ from hassign.run_eq {}] at hok
    cases result with
    | error f => cases hok
    | ok out => exact (hiff ⟨out, rfl⟩ fun _ _ _ => rfl).2 (.inl rfl)
  · have hlength : (run (.annotated (.name "x") .missing { line := 2 }) [p] {}).1.toOption.map List.length =
        some 1 := by
      decide +kernel
    obtain ⟨out, hout, hone⟩ := ok_of_toOption_map hlength
    obtain ⟨q, rfl⟩ := List.length_eq_one_iff.1 hone
    have hrun : ∀ {x : Except Fault (List Path) × Report}, x.1 = .ok [q] → x = (.ok [q], x.2) := fun h => by rw [← h]
    refine ⟨q, _, hrun hout, fun name s f hf => ?_⟩
    obtain ⟨hpaths, -⟩ := hdeclare _ _ _ _ _ _ (hrun hout)
    cases hpaths with
    | cons hq _ => exact ((hq.flows _ name s f).1 hf).1 rfl

/-- At column 7 the flow to `sink` is reported for column 7 by `sink = get()` and `sink = sink + get()` and for column 0
by `sink: int = get()` and `sink += get()`; after `x = get()` the declaration `x: int` leaves `x` without a flow. -/
theorem shorthand_differs :
    let a : Pattern :=
      { name := "A", sources := ["get"], sinks := ["sink"], modes := [], implicit := false }
    let get : Expr := .call "" "get" [] { line := 1, column := 19 }
    let spot : Spot := { line := 1, column := 7 }
    let sinks (s : Stmt) : List Position :=
      (s.analyse .scoped 1 [Path.start [a]] {}).report.findings.keys.map Subject.sinkAt
    let flows (body : List Stmt) : Option (List Bool) :=
      (Stmt.analyseBlock .scoped 1 body [Path.start [a]] {}).paths?.toOption.map fun paths => paths.map fun p =>
        ((p.labels.get? "x").map fun m => m.entries.values.any fun t => !t.label.flows.isEmpty).getD false
    sinks (.assign [.name "sink"] get spot) = [{ line := 1, column := 7 }] ∧
      sinks (.annotated (.name "sink") get spot) = [{ line := 1 }] ∧
      sinks (.assign [.name "sink"] (.binary (.name "sink" spot) get) spot) = [{ line := 1, column := 7 }] ∧
      sinks (.augmented (.name "sink") (.name "sink" spot) get spot) = [{ line := 1 }] ∧
      flows [.assign [.name "x"] get spot] = some [true] ∧
      flows [.assign [.name "x"] get spot, .annotated (.name "x") .missing { line := 2 }] = some [false] := by
  decide +kernel

end TaintFlow
