import TaintFlow.Proofs.Custody
import TaintFlow.Proofs.Intake
import TaintFlow.Proofs.Outcome

/-
Assignments to variables. All targets of an assignment are marked as assigned before the value is evaluated, and of all
targets only the last gets the flows of the value and is flagged as a sink.

So a variable that is read in its own assignment counts as assigned there, whether it was or not: it becomes no source,
and it brings in a flow only for the patterns that had it as a source before.
-/
namespace TaintFlow

open Listing

namespace Eval

variable {edition : Edition}

/-! ## Targets -/

/-- Variables as targets are marked as assigned, and the last of them is what is assigned to. -/
theorem run_takeTargets_names [SetOrder] (edition : Edition) : ∀ (names taken : List String) (m : Taint) (w : World),
    ∃ m', (takeTargets edition (names.map .name) m taken).run w =
        (.ok (m', (names.getLast?.map ([·])).getD taken), { w with path := names.foldl Path.markInitialized w.path }) ∧
      ∀ name s f, m'.Has name s f ↔ m.Has name s f
  | [], taken, m, w => ⟨m, rfl, fun _ _ _ => .rfl⟩
  | x :: names, taken, m, w => by
    obtain ⟨m', hrun, hm'⟩ := run_takeTargets_names edition names [x] (m.combine (w.path.markInitialized x).clean)
      { w with path := w.path.markInitialized x }
    refine ⟨m', ?_, fun name s f => ?_⟩
    · rw [List.map_cons, takeTargets]
      refine (bind_of_ok (a := ((w.path.markInitialized x).clean, [x])) rfl _).trans ?_
      rw [hrun, List.getLast?_cons]
      cases names.getLast? <;> rfl
    · rw [hm', MultiLabel.has_combine]
      exact or_iff_left (Path.not_has_clean _ name s f)

/-- A name is flagged for its value and for what it depends on, and then gets both. -/
theorem assignName_ok [SetOrder] {spot : Spot} {m k k' : Taint} {x : String} {w v : World}
    (h : (assignName edition spot m k x).run w = (.ok k', v)) :
    k' = (w.path.before x).combine k ∧ ∃ u u', (flag edition x spot m .explicit).run w = (.ok (), u) ∧
      (flag edition x spot k' .implicit).run u = (.ok (), u') ∧
      v.report = u'.report ∧ v.path =
        { w.path with labels := w.path.labels.update x m, controlLabels := w.path.controlLabels.update x k' } := by
  unfold assignName at h
  rw [run_path_bind] at h
  obtain ⟨_, u, hexplicit, h⟩ := bind_ok h
  obtain ⟨_, u', himplicit, h⟩ := bind_ok h
  rw [run_path_bind] at h
  cases h
  refine ⟨rfl, u, u', hexplicit, himplicit, rfl, ?_⟩
  rw [← path_of_flag hexplicit, ← path_of_flag himplicit]

/-- An assignment to variables marks them, evaluates the value, and gives it to the last. -/
theorem assign_names_ok [SetOrder] {names : List String} {last : String} {value : Expr} {spot : Spot} {w v : World}
    {r : Taint × Taint} (h : (assign edition ((names ++ [last]).map .name) value spot).run w = (.ok r, v)) :
    ∃ e k u u', (value.evaluate edition .value).run
        { w with path := (names ++ [last]).foldl Path.markInitialized w.path } = (.ok e, u) ∧
      (value.evaluate edition .control).run u = (.ok k, u') ∧ (∀ name s f, r.1.Has name s f ↔ e.Has name s f) ∧
      (assignName edition spot r.1 (u.path.clean.combine k) last).run u' = (.ok r.2, v) := by
  unfold assign at h
  rw [run_clean_bind] at h
  obtain ⟨m, htake, hm⟩ := run_takeTargets_names edition (names ++ [last]) [] w.path.clean w
  rw [bind_of_ok htake, List.getLast?_concat] at h
  obtain ⟨e, u, he, h⟩ := bind_ok h
  rw [run_clean_bind] at h
  obtain ⟨k, u', hk, h⟩ := bind_ok h
  obtain ⟨k', v', hassign, h⟩ := bind_ok h
  cases h
  refine ⟨e, k, u, u', he, hk, fun name s f => ?_, ?_⟩
  · rw [MultiLabel.has_combine, hm]
    exact or_iff_right (w.path.not_has_clean name s f)
  · obtain ⟨_, v', hassign, h⟩ := bind_ok hassign
    cases h
    exact hassign

end Eval

/-- Marking variables changes no flow and no pattern. -/
theorem Path.foldl_markInitialized (names : List String) : ∀ p : Path,
    names.foldl markInitialized p = { p with initialized := names.foldl adjoin p.initialized } := by
  induction names with
  | nil => exact fun _ => rfl
  | cons x names ih => exact fun p => ih (p.markInitialized x)

/-! ## What the targets get -/

section Targets

variable {edition : Edition} {names : List String} {last : String} {value : Expr} {spot : Spot} {w v : World}
  {r : Taint × Taint}

/-- The last target has exactly the flows of the value, and all other variables have the flows that they had. -/
theorem Path.has_assign {p : Path} {m k : Taint} {x y name s : String} {f : Flow} :
    { p with labels := p.labels.update x m, controlLabels := p.controlLabels.update x k }.Has y name s f ↔
      if y = x then m.Has name s f else p.Has y name s f := by
  unfold Has
  by_cases hy : y = x
  · subst hy
    rw [if_pos rfl, Labelling.get?_update_self]
    simp
  · rw [if_neg hy, Labelling.get?_update_of_ne _ hy]

/-- Flagging a value or a condition at a sink records nothing for other sinks. -/
theorem Eval.recorded_flag_sink [SetOrder] {sink : String} {m : Taint} {kind kind' : FlowKind} {marks : List Mark}
    {s : Subject} {c : Except Fault Unit} (h : (flag edition sink spot m kind).run w = (c, v))
    (hs : v.report.Recorded s kind' marks) : w.report.Recorded s kind' marks ∨ s.sink = sink := by
  have hcases : ((flag edition sink spot m kind).run w).2.report.Recorded s kind' marks := by rwa [h]
  rcases recorded_flag_cases hcases with hs | ⟨i, f, -, -, -, -, -, -, hs, -⟩
  · exact .inl hs
  · exact .inr hs

/-- Of the variables in `x = y = … = e` only the last gets the flows of the value and is flagged as a sink. So all
get them if and only if all but the last had them before. -/
theorem assignment_reaches_last_target [SetOrder]
    (hrun : (Eval.assign edition ((names ++ [last]).map .name) value spot).run w = (.ok r, v)) :
    ∃ e k u u', (value.evaluate edition .value).run
        { w with path := (names ++ [last]).foldl Path.markInitialized w.path } = (.ok e, u) ∧
      (value.evaluate edition .control).run u = (.ok k, u') ∧
      (∀ x name s f, v.path.Has x name s f ↔ if x = last then e.Has name s f else w.path.Has x name s f) ∧
      ((∀ x ∈ names ++ [last], ∀ name s f, e.Has name s f → v.path.Has x name s f) ↔
        ∀ x ∈ names, x ≠ last → ∀ name s f, e.Has name s f → w.path.Has x name s f) ∧
      (∀ a s f marks, v.path.named a.name = [a] → a.isSink last = true → a.isSource s = true → e.Has a.name s f →
        Report.imprint edition a f.marks = .ok (some marks) →
        v.report.Recorded ⟨a.name, s, f.position, last, edition.place spot w.path.scope⟩ .explicit marks) ∧
      ∀ subject kind marks, v.report.Recorded subject kind marks →
        u'.report.Recorded subject kind marks ∨ subject.sink = last := by
  obtain ⟨e, k, u, u', he, hk, hm, hassign⟩ := Eval.assign_names_ok hrun
  obtain ⟨-, v₁, v₂, hexplicit, himplicit, hreport, hpath⟩ := Eval.assignName_ok hassign
  have hgrows := ((Expr.later_evaluate he).trans (Expr.later_evaluate hk)).path
  have hflows : ∀ {x name s f}, u'.path.Has x name s f ↔ w.path.Has x name s f := by
    intro x name s f
    rw [hgrows.has, Path.foldl_markInitialized]
    rfl
  have hscope : u'.path.scope = w.path.scope := by
    rw [hgrows.scope, Path.foldl_markInitialized]
  have hall : ∀ x name s f, v.path.Has x name s f ↔ if x = last then e.Has name s f else w.path.Has x name s f := by
    intro x name s f
    rw [hpath, Path.has_assign, hm, hflows]
  refine ⟨e, k, u, u', he, hk, hall, ⟨fun h x hx hne name s f hf => ?_, fun h x hx name s f hf => ?_⟩, ?_, ?_⟩
  · have hx := (hall x name s f).1 (h x (List.mem_append_left _ hx) name s f hf)
    rwa [if_neg hne] at hx
  · rw [hall]
    split
    · exact hf
    · rename_i hne
      have hx : x ∈ names := (List.mem_append.1 hx).resolve_right fun hx => hne (List.mem_singleton.1 hx)
      exact h x hx hne name s f hf
  · intro a s f marks ha hsink hs hf hmarks
    have ha : u'.path.named a.name = [a] := by rwa [hpath] at ha
    have hrec := Eval.recorded_flag hexplicit ha hsink hs ((hm a.name s f).2 hf) hmarks
    rw [hscope] at hrec
    exact hreport ▸ (Expr.later_flag himplicit).report _ _ _ hrec
  · intro subject kind marks hrec
    rw [hreport] at hrec
    rcases Eval.recorded_flag_sink himplicit hrec with hrec | hs
    · exact Eval.recorded_flag_sink hexplicit hrec
    · exact .inr hs

end Targets

/-- After `x = sink = get()` the flow of `get` is on `sink` and reported there, and `x` has none. -/
theorem assignment_reaches_last_of_two :
    let a : Pattern :=
      { name := "A", sources := ["get"], sinks := ["sink"], modes := [], implicit := false }
    let get : Expr := .call "" "get" [] { line := 1, column := 11 }
    ∃ r v, (Eval.assign .scoped ((["x"] ++ ["sink"]).map .name) get { line := 1 }).run
        ⟨Path.start [a], {}⟩ = (.ok r, v) ∧
      v.path.Has "sink" "A" "get" { position := { line := 1, column := 11 } } ∧
      (∀ s f, ¬ v.path.Has "x" "A" s f) ∧
      v.report.Recorded ⟨"A", "get", { line := 1, column := 11 }, "sink", { line := 1 }⟩ .explicit [] := by
  intro a get
  have hpatterns : ((Eval.assign .scoped ((["x"] ++ ["sink"]).map .name) get { line := 1 }).run
      ⟨Path.start [a], {}⟩).2.path.patterns = [a] := by decide +kernel
  have hget : ∃ e ∈ ((get.evaluate .scoped .value).run
      ⟨["x", "sink"].foldl Path.markInitialized (Path.start [a]), {}⟩).1.toOption,
      e.Has "A" "get" { position := { line := 1, column := 11 } } := by decide +kernel
  obtain ⟨r, v, hrun⟩ := Eval.exists_ok (show ((Eval.assign .scoped ((["x"] ++ ["sink"]).map .name) get
    { line := 1 }).run ⟨Path.start [a], {}⟩).1.isOk = true by decide +kernel)
  obtain ⟨e, k, u, u', he, -, hflows, -, hreported, -⟩ := assignment_reaches_last_target hrun
  rw [show ["x", "sink"] = ["x"] ++ ["sink"] from rfl, he] at hget
  obtain ⟨_, hm, hf⟩ := hget
  cases hm
  rw [hrun] at hpatterns
  refine ⟨r, v, hrun, (hflows _ _ _ _).2 hf, fun s f hx => ?_, ?_⟩
  · obtain ⟨m, hm, -⟩ := (hflows "x" "A" s f).1 hx
    cases hm
  · refine hreported a "get" _ [] ?_ rfl rfl hf rfl
    rw [Path.named, hpatterns]
    rfl

/-- In `x = y = get()` the first target is lost, and in `sink = y = get()` it is not flagged. -/
theorem assignment_loses_first_target :
    let a : Pattern :=
      { name := "A", sources := ["get"], sinks := ["sink"], modes := [], implicit := false }
    let get : Expr := .call "" "get" [] { line := 1 }
    let after (edition : Edition) (targets : List String) : World :=
      ((Eval.assign edition (targets.map .name) get { line := 1 }).run ⟨Path.start [a], {}⟩).2
    let has (w : World) (x : String) : Prop :=
      ∃ m ∈ w.path.labels.get? x, m.Has "A" "get" { position := { line := 1 } }
    let loses (edition : Edition) : Prop :=
      has (after edition ["x", "y"]) "y" ∧ ¬ has (after edition ["x", "y"]) "x" ∧
        has (after edition ["sink", "y"]) "y" ∧ (after edition ["sink", "y"]).report.findings.keys = [] ∧
        (after edition ["y", "sink"]).report.findings.keys ≠ []
    loses .plain ∧ loses .scoped := by
  decide +kernel

/-! ## Variables in their own assignments -/

/-- A variable that is a source brings in a flow wherever it is read in a value. -/
theorem Expr.Reaches.has_source [SetOrder] {edition : Edition} {e : Expr} {x name : String} {spot : Spot} {i : Nat}
    (h : e.Reaches (.name x spot)) : ∀ {w v : World} {m : Taint}, (e.evaluate edition .value).run w = (.ok m, v) →
    w.path.clean.Refers name i → x ∈ (w.path.view (.own i)).sources →
    ∃ f, m.Has name x f ∧ f.position = edition.place spot w.path.scope := by
  generalize hpart : Expr.name x spot = part at h
  induction h with
  | self e =>
    intro w v m hrun hi hx
    subst hpart
    rw [Expr.evaluate.eq_def] at hrun
    exact ⟨_, (Eval.has_readName hrun (by simp) (.inl rfl) hi).2 (.inl ⟨rfl, rfl, fun _ => hx⟩), rfl⟩
  | operand hc _ ih =>
    intro w v m hrun hi hx
    obtain ⟨u, n, u', hu, hrun, -, hn⟩ := Expr.evaluated_operand hc hrun
    obtain ⟨f, hf, hpos⟩ := ih hpart hrun (hu.path.clean ▸ hi) ((hu.path.view_own i).sources x hx)
    exact ⟨f, hn _ _ _ hf, hu.path.scope ▸ hpos⟩
  | argument harg _ ih =>
    intro w v m hrun hi hx
    obtain ⟨a, w₁, m', k, u, hreceiver, hargs, -, hm⟩ := Expr.call_flows hrun
    obtain ⟨hw₁, hfresh⟩ := Expr.readReceiver_ok rfl hreceiver
    obtain ⟨-, -, -, hparts⟩ := Expr.evaluateArgs_ok hargs hfresh
    obtain ⟨u₁, n, u₂, hu₁, hrun, -, hn⟩ := hparts _ harg
    have hu := (hw₁.trans hu₁).path
    obtain ⟨f, hf, hpos⟩ := ih hpart hrun (hu.clean ▸ hi) ((hu.view_own i).sources x hx)
    refine ⟨_, (hm (by simp) hi).2 ⟨f, .inl (hn _ _ _ hf), rfl⟩, ?_⟩
    rw [Pattern.position_pass, hpos, hu.scope]

/-- Assignments to `x` whose value reads `x` at the spot: `x = … x …` and, in the scoped edition, `x += …`. -/
inductive Stmt.Rereads (edition : Edition) (x : String) (spot : Spot) : Stmt → Prop where
  | assign {value : Expr} {at_ : Spot} : value.Reaches (.name x spot) →
    Rereads edition x spot (.assign [.name x] value at_)
  | augmented {value : Expr} {at_ : Spot} : edition = .scoped →
    Rereads edition x spot (.augmented (.name x) (.name x spot) value at_)

/-- Both forms assign a value that reads the variable. -/
theorem Stmt.Rereads.analyse_eq [SetOrder] {edition : Edition} {x : String} {spot : Spot} {stmt : Stmt}
    (h : stmt.Rereads edition x spot) (limit : Nat) :
    ∃ value at_, value.Reaches (.name x spot) ∧
      stmt.analyse edition limit = Analysis.onEach (discard (Eval.assign edition [.name x] value at_)) := by
  cases h with
  | @assign value at_ hvalue =>
    refine ⟨value, at_, hvalue, ?_⟩
    rw [Stmt.analyse.eq_def]
  | @augmented value at_ hedition =>
    subst hedition
    refine ⟨.binary (.name x spot) value, { line := at_.line }, .operand (List.mem_cons_self ..) (.self _), ?_⟩
    rw [Stmt.analyse.eq_def]

theorem Analysis.onEach_ok {step : Eval Unit} {p q : Path} {r : Report}
    (h : (onEach step [p] r).paths? = .ok [q]) : ∃ v, step.run ⟨p, r⟩ = (.ok (), v) ∧ v.path = q := by
  rw [onEach] at h
  generalize step.run ⟨p, r⟩ = out at h ⊢
  obtain ⟨out, v⟩ := out
  cases out with
  | error fault => cases h
  | ok u =>
    cases h
    exact ⟨v, rfl, rfl⟩

/-- What an assignment to a variable does to the variable: no new source, and the flows of the value. -/
theorem Eval.assign_self [SetOrder] {edition : Edition} {x : String} {spot at_ : Spot} {value : Expr} {w v : World}
    {r : Taint × Taint} (hvalue : value.Reaches (.name x spot))
    (hrun : (assign edition [.name x] value at_).run w = (.ok r, v)) :
    v.path.patterns.map Pattern.bare = w.path.patterns.map Pattern.bare ∧
      (∀ i, x ∈ (v.path.view (.own i)).sources ↔ x ∈ (w.path.view (.own i)).sources) ∧
      ∀ {name i}, w.path.clean.Refers name i → x ∈ (w.path.view (.own i)).sources →
        ∃ f, v.path.Has x name x f ∧ f.position = edition.place spot w.path.scope := by
  have hnames : (assign edition (([] ++ [x]).map .name) value at_).run w = (.ok r, v) := hrun
  obtain ⟨e, k, u, u', he, hk, hm, hassign⟩ := assign_names_ok hnames
  obtain ⟨-, -, -, -, -, -, hpath⟩ := assignName_ok hassign
  have hspares := (Expr.spares_evaluate he).trans (Expr.spares_evaluate hk)
  have hgrows := hspares.later.path
  have hx : x ∈ (w.path.markInitialized x).initialized := mem_adjoin.2 (.inr rfl)
  rw [hpath]
  refine ⟨hgrows.map_bare, fun i => ⟨hspares.sources x hx i, (hgrows.view_own i).sources x⟩, fun {name i} hi hs => ?_⟩
  obtain ⟨f, hf, hpos⟩ := hvalue.has_source he hi hs
  exact ⟨f, Path.has_assign.2 (by rw [if_pos rfl]; exact (hm name x f).2 hf), hpos⟩

/-- A variable that is read in its own assignment is not found as a source. Its flow is there for every pattern if and
only if it was a source of every pattern before. -/
theorem self_assignment_finds_no_source [SetOrder] {edition : Edition} {limit : Nat} {x : String} {spot : Spot}
    {stmt : Stmt} {p q : Path} {r : Report} (hstmt : stmt.Rereads edition x spot)
    (hrun : (stmt.analyse edition limit [p] r).paths? = .ok [q]) :
    q.patterns.map (·.isSource x) = p.patterns.map (·.isSource x) ∧
      ((∀ a ∈ q.patterns, a.isSource x = true ∧ ∃ f, q.Has x a.name x f ∧ f.position.line = spot.line) ↔
        ∀ a ∈ p.patterns, a.isSource x = true) := by
  obtain ⟨value, at_, hvalue, hanalyse⟩ := hstmt.analyse_eq limit
  rw [hanalyse] at hrun
  obtain ⟨v, hstep, rfl⟩ := Analysis.onEach_ok hrun
  obtain ⟨m, v', hassign, hstep⟩ := Eval.bind_ok hstep
  cases hstep
  obtain ⟨hbare, hsources, hflow⟩ := Eval.assign_self hvalue hassign
  have hmap : v.path.patterns.map (·.isSource x) = p.patterns.map (·.isSource x) := by
    refine List.ext_getElem (by simpa using congrArg List.length hbare) fun i hi hi' => ?_
    rw [List.length_map] at hi hi'
    rw [List.getElem_map, List.getElem_map, ← Path.view_own hi, ← Path.view_own hi']
    exact decide_eq_decide.2 (hsources i)
  have hall : (∀ a ∈ v.path.patterns, a.isSource x = true) ↔ ∀ a ∈ p.patterns, a.isSource x = true := by
    rw [← List.forall_mem_map (P := (· = true)), hmap, List.forall_mem_map]
  refine ⟨hmap, fun h => hall.1 fun a ha => (h a ha).1, fun h a ha => ⟨hall.2 h a ha, ?_⟩⟩
  obtain ⟨i, hi⟩ := Path.exists_refers_of_mem ha
  rw [Path.clean_eq hbare] at hi
  have hx : x ∈ (p.view (.own i)).sources := of_decide_eq_true (h _ (Path.view_own_mem (Path.lt_of_refers hi)))
  obtain ⟨f, hf, hpos⟩ := hflow hi hx
  refine ⟨f, hf, ?_⟩
  rw [hpos]
  cases edition <;> rfl

/-- In `x = f(x + 1)` a variable that is a source brings in its flow, though it is marked as assigned first. -/
theorem self_assignment_of_source :
    let a : Pattern :=
      { name := "A", sources := ["x"], sinks := ["sink"], modes := [("f", .text "show")], implicit := false }
    let value : Expr := .call "" "f" [.binary (.name "x" { line := 2, column := 6 }) .inert] { line := 2, column := 4 }
    let stmt : Stmt := .assign [.name "x"] value { line := 2 }
    ∃ q, (stmt.analyse .scoped 1 [Path.start [a]] {}).paths? = .ok [q] ∧ "x" ∉ (Path.start [a]).initialized ∧
      ∃ f, q.Has "x" "A" "x" f ∧ f.position.line = 2 := by
  intro a value stmt
  have hout : (stmt.analyse .scoped 1 [Path.start [a]] {}).paths?.toOption.map
      (·.map fun q => q.patterns.map (·.name)) = some [["A"]] := by decide +kernel
  obtain ⟨l, hrun, hl⟩ := ok_of_toOption_map hout
  obtain ⟨q, rfl, hq⟩ := List.map_eq_singleton_iff.1 hl
  have hstmt : stmt.Rereads .scoped "x" { line := 2, column := 6 } :=
    .assign (.argument (List.mem_singleton_self _) (.operand (List.mem_cons_self ..) (.self _)))
  obtain ⟨-, hiff⟩ := self_assignment_finds_no_source hstmt hrun
  have hflows := hiff.2 (List.forall_mem_singleton.2 rfl)
  obtain ⟨b, hb, hname⟩ := List.mem_map.1 (hq ▸ List.mem_singleton_self "A")
  exact ⟨q, hrun, by decide, hname ▸ (hflows b hb).2⟩

/-- In `x = x + 1` and, in the scoped edition, in `x += 1` a variable that was never assigned is not found as a
source. -/
theorem self_assignment_misses_unassigned :
    let a : Pattern :=
      { name := "A", sources := ["get"], sinks := ["sink"], modes := [], implicit := false }
    let x : Expr := .name "x" { line := 1 }
    let misses (edition : Edition) (stmt : Stmt) : Prop :=
      ∃ q ∈ (stmt.analyse edition 1 [Path.start [a]] {}).paths?.toOption.bind (·.head?),
        q.patterns.map (·.sources) = [["get"]] ∧
          ∃ m ∈ q.labels.get? "x", ¬ m.Has "A" "x" { position := { line := 1 } }
    "x" ∉ (Path.start [a]).initialized ∧
      (∀ edition, misses edition (.assign [.name "x"] (.binary x .inert) { line := 1 })) ∧
      misses .scoped (.augmented (.name "x") x .inert { line := 1 }) := by
  refine ⟨by decide, fun edition => ?_, by decide +kernel⟩
  cases edition <;> decide +kernel

end TaintFlow
