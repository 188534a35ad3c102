import TaintFlow.Proofs.AssignFlow
import TaintFlow.Proofs.Log
import TaintFlow.Proofs.Reached

/-
The else part of a loop. It is run once for each path, from the path as it was before the loop, and not from the paths
of the iterations. So the paths after a loop come in two kinds, those that went through the body and those that went
through the else part, and what the else part reports depends on nothing that the body does.
-/
namespace TaintFlow

/-! ## What is left unassigned -/

/-- The flows of all variables are the same on both paths, except for variables that are assigned at the sites. -/
def Path.AgreesBut (sites : List Site) (p q : Path) : Prop :=
  ∀ x, (∀ spot, .assigned x spot ∉ sites) → ∀ name s f, q.Has x name s f ↔ p.Has x name s f

/-- A variable keeps its flows as long as it is not assigned. -/
def Discipline.keeping (edition : Edition) (x : String) (p : Path) : Discipline where
  edition := edition
  Inv w := ∀ name s f, w.path.Has x name s f ↔ p.Has x name s f
  Later _ _ := True
  Value _ _ := True
  Stored _ _ := True
  refl _ := trivial
  trans _ _ := trivial

theorem Discipline.writes_keeping [SetOrder] (edition : Edition) (x : String) (p : Path) :
    (keeping edition x p).Writes fun site => ∀ spot, site ≠ .assigned x spot := by
  have hgrows : ∀ {w : World} {q : Path}, (keeping edition x p).Inv w → w.path.Grows (fun _ => True) q →
      (keeping edition x p).Moves w q := fun hw hq => ⟨fun name s f => hq.has.trans (hw name s f), trivial⟩
  refine ⟨?_, ?_, ?_, ?_⟩
  · constructor
    case discover => exact fun hw _ _ => hgrows hw (Path.grows_discover trivial _)
    case discoverImplicit => exact fun hw _ _ => hgrows hw (Path.grows_discoverImplicit trivial _)
    case fill => exact fun hw _ hi hn => hgrows hw (Path.grows_fill trivial hi hn)
    case flag =>
      intro w y spot m kind _ _ _ hw
      refine ⟨fun name s f => ?_, trivial, fun _ _ => trivial⟩
      rw [Eval.path_flag]
      exact hw name s f
    all_goals intros; trivial
  · exact fun hw _ => ⟨hw, trivial⟩
  · intro w y spot m k hw hy _ _
    have hne : x ≠ y := fun he => hy spot (he ▸ rfl)
    refine ⟨fun name s f => ?_, trivial⟩
    rw [Path.has_assign, if_neg hne]
    exact hw name s f
  · exact fun hw _ => ⟨hw, trivial⟩

theorem Path.has_fork (p : Path) {x name s : String} {f : Flow} : p.fork.Has x name s f ↔ p.Has x name s f := by
  have hlabels : p.fork.labels.get? x = (p.labels.get? x).map (·.mapPatterns p.keep) :=
    Labelling.get?_mapPatterns p.keep p.labels x
  unfold Has
  rw [hlabels]
  cases p.labels.get? x with
  | none => simp
  | some l => simp [MultiLabel.has_mapPatterns]

theorem stepsUphold_keeping [SetOrder] (edition : Edition) (x : String) (p : Path) :
    StepsUphold edition (fun q => ∀ name s f, q.Has x name s f ↔ p.Has x name s f) (fun _ => True)
      (fun site => ∀ spot, site ≠ .assigned x spot) True := by
  refine (Discipline.writes_keeping edition x p).stepsUphold (fun w => ⟨fun h => ⟨h, trivial⟩, And.left⟩) ⟨?_, ?_, ?_⟩
  · exact fun q hq name s f => q.has_fork.trans (hq name s f)
  · exact fun q hq => hq
  · exact fun q k hq => hq

open Analysis

/-- A statement leaves the variables alone that it does not assign. -/
theorem Stmt.agrees_analyse [SetOrder] {edition : Edition} {limit : Nat} {s : Stmt} {p : Path} {paths out : List Path}
    (hp : ∀ q ∈ paths, p.AgreesBut s.sites q) (h : Leads (s.analyse edition limit).outcome paths out) :
    ∀ q ∈ out, p.AgreesBut s.sites q := by
  obtain ⟨r, r', h⟩ := h
  intro q hq x hx
  have hkeeps := (stepsUphold_keeping edition x p).upholds_analyse limit s
    (fun site hs spot he => hx spot (he ▸ hs)) (.inl trivial)
  obtain ⟨-, -, hout, -⟩ := hkeeps paths r (fun q hq => hp q hq x hx) trivial
  exact hout out (congrArg Prod.fst h) q hq

/-! ## Loops -/

/-- The sink of the subject is at one of the sites. -/
def Subject.At (edition : Edition) (sites : List Site) (s : Subject) : Prop :=
  ∃ site ∈ sites, s.sink ∈ site.sinks ∧ ∃ scope, s.sinkAt = edition.place site.spot scope

namespace Header

variable [SetOrder] {edition : Edition} {body : Stmt}

theorem upholds_enter {P : Path → Prop} {R : Report → Prop} {allowed : Site → Prop}
    (h : StepsUphold edition P R allowed True) : ∀ {header : Header}, (∀ site ∈ header.sites, allowed site) →
      (header.enter edition).Upholds P R
  | .test _, hsites => h.tests trivial hsites
  | .item _ _ _, hsites => h.items trivial hsites

theorem pairs_enter {R : Submission → Submission → Prop} {allowed : Site → Prop}
    (hR : ∀ c : Submission, c.Raised edition allowed → R c c) : ∀ {header : Header},
      (∀ site ∈ header.sites, allowed site) →
      Eval.Pairs edition R (fun _ => True) (header.enter edition) (header.enter edition)
  | .test _, hsites => Eval.pairs_enterTest hR hsites
  | .item _ _ _, hsites => Eval.pairs_enterItem hR hsites

variable (header : Header)

/-- The iterations leave the variables alone that neither the header nor the body assigns. -/
theorem agrees_rounds {limit n : Nat} {p start : Path} {out : List Path}
    (hp : p.AgreesBut (header.sites ++ body.sites) start)
    (h : Leads (rounds header.depth (header.enter edition) (body.analyse edition limit) start) n out) :
    ∀ q ∈ out, p.AgreesBut (header.sites ++ body.sites) q := by
  obtain ⟨mid, ⟨r, r', hmid⟩, rfl⟩ := leads_rounds h
  refine List.forall_mem_map.2 fun q hq x hx => ?_
  have hkeeps := stepsUphold_keeping edition x p
  have hallowed : ∀ site ∈ header.sites ++ body.sites, ∀ spot, site ≠ .assigned x spot :=
    fun site hs spot he => hx spot (he ▸ hs)
  rw [List.forall_mem_append] at hallowed
  have hround := upholds_iteration (hkeeps.inherited trivial) (upholds_enter hkeeps hallowed.1)
    (hkeeps.upholds_analyse limit body hallowed.2 (.inl trivial))
  obtain ⟨-, hout, -⟩ := upholds_unroll hround n [start] r (List.forall_mem_singleton.2 (hp x hx)) trivial
  exact hout mid (congrArg Prod.fst hmid) q hq

theorem pairs_body {R : Submission → Submission → Prop} (limit : Nat)
    (hR : ∀ c : Submission, c.Raised edition (· ∈ header.sites ++ body.sites) → R c c) :
    Eval.Pairs edition R (fun _ => True) (header.enter edition) (header.enter edition) ∧
      Pairs edition R (body.analyse edition limit) (body.analyse edition limit) :=
  ⟨pairs_enter hR fun _ hsite => List.mem_append_left _ hsite,
    body.pairs_analyse hR limit fun _ hsite => List.mem_append_right _ hsite⟩

/-- A number of rounds leads to the same paths whatever was reported before. -/
theorem rounds_eq {limit n : Nat} {start : Path} {out : List Path}
    (h : Leads (rounds header.depth (header.enter edition) (body.analyse edition limit) start) n out) (r : Report) :
    (rounds header.depth (header.enter edition) (body.analyse edition limit) start n r).1 = .ok out := by
  obtain ⟨henter, hbody⟩ := header.pairs_body (R := fun c _ => c.Raised edition (· ∈ header.sites ++ body.sites)) limit
    fun _ h => h
  obtain ⟨result, log, hlogs, -⟩ :=
    (pairs_rounds henter hbody (body.decides_analyse edition limit) header.depth start n).exists_logs
  obtain ⟨r₁, r₁', h⟩ := h
  rw [hlogs.run_eq r, hlogs.result_eq h]

/-- The log of a search is made at the sites of the header and of the body. -/
theorem exists_logs_search (limit : Nat) (p : Path) :
    ∃ result log,
      Logs edition (search limit header.depth (header.enter edition) (body.analyse edition limit) p) result log ∧
        ∀ c ∈ log, c.Raised edition (· ∈ header.sites ++ body.sites) := by
  obtain ⟨henter, hbody⟩ := header.pairs_body (R := fun c _ => c.Raised edition (· ∈ header.sites ++ body.sites)) limit
    fun _ h => h
  exact (pairs_search henter hbody (body.decides_analyse edition limit) limit header.depth p).exists_logs

end Header

/-! ## What is reported -/

/-- What a run reports on its own is at the sites at which its log is made. -/
theorem Logs.subject_at [SetOrder] {edition : Edition} {α : Type} {run : Report → Except Fault α × Report}
    {result : Except Fault α} {log : List Submission} (h : Logs edition run result log) {sites : List Site}
    (hraised : ∀ c ∈ log, c.Raised edition (· ∈ sites)) {r r' : Report} {a : α} (hr : run r = (.ok a, r')) {s : Subject}
    {kind : FlowKind} {marks : List Mark} (hs : (run {}).2.Recorded s kind marks) : s.At edition sites := by
  obtain rfl := h.result_eq hr
  rw [h.recorded] at hs
  obtain ⟨c, hc, _, _, -, -, -, -, hsink, hat, -⟩ := hs.resolve_left (Report.not_recorded_empty s kind marks)
  obtain ⟨site, hsite, hmem, hplace⟩ := (hraised c hc).at_site
  exact ⟨site, hsite, hsink ▸ hmem, hat ▸ hplace⟩

theorem recorded_iterate {step : Walk} {s : Subject} {kind : FlowKind} {marks : List Mark} {New : Path → Prop}
    (hstep : ∀ p r r' out, step p r = (.ok out, r') →
      (r'.Recorded s kind marks ↔ r.Recorded s kind marks ∨ New p)) :
    ∀ {paths out : List Path} {r r' : Report}, iterate step paths r = (.ok out, r') →
      (r'.Recorded s kind marks ↔ r.Recorded s kind marks ∨ ∃ p ∈ paths, New p)
  | [], _, _, _, h => by
    cases h
    simp
  | p :: rest, _, r, r', h => by
    rw [iterate_cons] at h
    obtain ⟨first, r₁, hfirst, h⟩ := chain_ok h
    obtain ⟨others, r₂, hothers, h⟩ := chain_ok h
    cases h
    rw [recorded_iterate hstep hothers, hstep p r r₁ first hfirst, or_assoc]
    simp only [List.mem_cons, exists_eq_or_imp]

/-- What a loop reports for one path: what the search does, at the sites of the header and of the body, and what
the else part does from the path as it was, at its own sites. -/
def Stmt.Tells [SetOrder] (edition : Edition) (limit : Nat) (header : Header) (body orelse : Stmt) (s : Subject)
    (kind : FlowKind) (marks : List Mark) (p : Path) : Prop :=
  ((search limit header.depth (header.enter edition) (body.analyse edition limit) p {}).2.Recorded s kind marks ∧
    s.At edition (header.sites ++ body.sites)) ∨
  ((orelse.analyse edition limit [entry header.depth p] {}).report.Recorded s kind marks ∧ s.At edition orelse.sites)

theorem Header.recorded_loopFrom [SetOrder] {edition : Edition} (header : Header) {body orelse : Stmt} {limit : Nat}
    {subject : Subject} {kind : FlowKind} {marks : List Mark} (p : Path) (r r' : Report) (out : List Path)
    (h : loopFrom limit header.depth (header.enter edition) (body.analyse edition limit)
      (orelse.analyse edition limit) p r = (.ok out, r')) :
    r'.Recorded subject kind marks ↔ r.Recorded subject kind marks ∨
      Stmt.Tells edition limit header body orelse subject kind marks p := by
  rw [loopFrom_eq_chain] at h
  obtain ⟨found, r₁, hsearch, h⟩ := chain_ok h
  obtain ⟨skipped, r₂, helse, h⟩ := chain_ok h
  cases h
  obtain ⟨result, log, hlogs, hraised⟩ := header.exists_logs_search limit p
  obtain ⟨result', log', hlogs', hraised'⟩ := orelse.exists_logs edition limit [entry header.depth p]
  rw [hlogs'.recorded_iff helse, hlogs.recorded_iff hsearch, or_assoc]
  refine or_congr_right (or_congr ?_ ?_)
  · exact ⟨fun hrec => ⟨hrec, hlogs.subject_at hraised hsearch hrec⟩, And.left⟩
  · exact ⟨fun hrec => ⟨hrec, hlogs'.subject_at hraised' helse hrec⟩, And.left⟩

/-! ## The paths and the report after a loop -/

/-- What a loop makes of one path. A round of `i + 1` iterations leads to the paths of turn `i`, and the else part leads
from the path as it was to the paths that skip the loop, whatever was reported before. The paths of the turns
have the flows of the path on all variables that the header and the body do not assign, and those that skip the loop on
all variables that the else part does not assign. -/
structure Stmt.Exits [SetOrder] (edition : Edition) (limit : Nat) (header : Header) (body orelse : Stmt) (p : Path)
    (turns : List (List Path)) (skipped : List Path) : Prop where
  some_turn : turns ≠ []
  turn : ∀ i turn, turns[i]? = some turn → ∀ r,
    (rounds header.depth (header.enter edition) (body.analyse edition limit) (entry header.depth p) (i + 1) r).1 =
      .ok turn
  skip : ∀ r, (orelse.analyse edition limit [entry header.depth p] r).paths? = .ok skipped
  turn_agrees : ∀ turn ∈ turns, ∀ q ∈ turn, p.AgreesBut (header.sites ++ body.sites) q
  skip_agrees : ∀ q ∈ leaveLoop skipped, p.AgreesBut orelse.sites q

theorem Path.agreesBut_entry (sites : List Site) (depth : Int) (p : Path) : p.AgreesBut sites (entry depth p) :=
  fun _ _ _ _ _ => p.has_fork

theorem Header.exits [SetOrder] {edition : Edition} (header : Header) {body orelse : Stmt} {limit : Nat} {p : Path}
    {part : List Path}
    (h : Leads (loopFrom limit header.depth (header.enter edition) (body.analyse edition limit)
      (orelse.analyse edition limit)) p part) :
    ∃ turns skipped, Stmt.Exits edition limit header body orelse p turns skipped ∧
      part = turns.flatten ++ leaveLoop skipped := by
  obtain ⟨found, skipped, hsearch, hskip, rfl⟩ := leads_loopFrom h
  obtain ⟨turns, hne, hturns, rfl⟩ := leads_search_turns hsearch
  have hentry : ∀ sites, ∀ q ∈ [entry header.depth p], p.AgreesBut sites q := fun sites =>
    List.forall_mem_singleton.2 (p.agreesBut_entry sites header.depth)
  refine ⟨turns, skipped, ⟨hne, fun i turn hturn => header.rounds_eq (hturns i turn hturn), fun r => ?_, ?_, ?_⟩, rfl⟩
  · obtain ⟨result, log, hlogs, -⟩ := orelse.exists_logs edition limit [entry header.depth p]
    obtain ⟨r₁, r₁', hskip⟩ := hskip
    exact (congrArg Prod.fst (hlogs.run_eq r)).trans (hlogs.result_eq hskip)
  · intro turn hturn
    obtain ⟨i, hi⟩ := List.mem_iff_getElem?.1 hturn
    exact header.agrees_rounds (p.agreesBut_entry _ header.depth) (hturns i turn hi)
  · intro q hq
    obtain ⟨q, hmem, rfl | rfl⟩ := mem_leaveLoop hq
    · exact Stmt.agrees_analyse (hentry orelse.sites) hskip q hmem
    · exact Stmt.agrees_analyse (hentry orelse.sites) hskip q hmem

/-- A loop leads each path to the paths of its turns and to those that skip it; the else part is run only from
the path as it was before the loop. So no path after the loop has changed both what only the body assigns and what only
the else part assigns, and a flow to a sink in the else part is reported if and only if it is reported where the loop is
skipped. -/
theorem loop_else_follows_entry [SetOrder] {edition : Edition} {limit : Nat} (header : Header) {body orelse : Stmt}
    {paths out : List Path} {r : Report}
    (h : ((header.loop body orelse).analyse edition limit paths r).paths? = .ok out) :
    (∃ parts, List.Forall₂ (fun p part => ∃ turns skipped,
        Stmt.Exits edition limit header body orelse p turns skipped ∧
          part = turns.flatten ++ leaveLoop skipped) paths parts ∧ out = parts.flatten) ∧
      ∀ subject kind marks,
        ((header.loop body orelse).analyse edition limit paths r).report.Recorded subject kind marks ↔
          r.Recorded subject kind marks ∨
          ∃ p ∈ paths, Stmt.Tells edition limit header body orelse subject kind marks p := by
  have hrun : ((header.loop body orelse).analyse edition limit).outcome paths r =
      (.ok out, ((header.loop body orelse).analyse edition limit paths r).report) := Prod.ext h rfl
  rw [header.analyse_loop, outcome_loop] at hrun
  constructor
  · obtain ⟨parts, hparts, rfl⟩ := leads_iterate ⟨r, _, hrun⟩
    exact ⟨parts, hparts.imp fun p part hpart => header.exits hpart, rfl⟩
  · intro subject kind marks
    rw [header.analyse_loop]
    exact recorded_iterate header.recorded_loopFrom hrun

/-- After `x = 0; b = 0`, the loop `while b: x = get()` with `else: sink(x)` reports no flow of `get` to the sink: the
sink is not in the body, and where the loop is skipped `x` has no flow. -/
theorem loop_else_after_assigning_body :
    let a : Pattern :=
      { name := "A", sources := ["get"], sinks := ["sink"], modes := [], implicit := false }
    let put (x : String) (line : Int) : Eval (Taint × Taint) := Eval.assign .scoped [.name x] .inert { line }
    let p : Path := ((put "b" 2).run ((put "x" 1).run ⟨Path.start [a], {}⟩).2).2.path
    let body : Stmt := .block [.assign [.name "x"] (.call "" "get" [] { line := 4, column := 6 })
      { line := 4, column := 2 }]
    let orelse : Stmt := .block [.eval (.call "" "sink" [.name "x" { line := 6, column := 7 }]
      { line := 6, column := 2 })]
    let header : Header := .test (.name "b" { line := 3, column := 6 })
    let s : Stmt := header.loop body orelse
    ∃ out, (s.analyse .scoped 5 [p] {}).paths? = .ok out ∧ ∀ sourceAt sinkAt kind marks,
      ¬ (s.analyse .scoped 5 [p] {}).report.Recorded ⟨"A", "get", sourceAt, "sink", sinkAt⟩ kind marks := by
  intro a put p body orelse header s
  have hcount : (s.analyse .scoped 5 [p] {}).paths?.toOption.map List.length = some 3 := by decide +kernel
  have hsites : ∀ site ∈ header.sites ++ body.sites, "sink" ∉ site.sinks := by decide
  have helse : (orelse.analyse .scoped 5 [Analysis.entry header.depth p] {}).report.findings.entries = [] := by
    decide +kernel
  obtain ⟨out, hout, -⟩ := ok_of_toOption_map hcount
  refine ⟨out, hout, fun sourceAt sinkAt kind marks hrec => ?_⟩
  rw [(loop_else_follows_entry header hout).2] at hrec
  rcases hrec with hrec | ⟨q, hq, ⟨-, site, hsite, hsink, -⟩ | ⟨⟨name, sightings, hfound, -⟩, -⟩⟩
  · exact Report.not_recorded_empty _ kind marks hrec
  · exact hsites site hsite hsink
  · rw [List.mem_singleton.1 hq, ← Table.mem_entries, helse] at hfound
    cases hfound

/-- `x = 0; b = 0` and then `x = get(); sink(x)`, which is one iteration of the body and then the else part: the flow is
reported. With the loops `while b: x = get()` and `for i in b: x = get()`, both with `else: sink(x)`, it is not. -/
theorem loop_else_misses_iterations :
    let a : Pattern :=
      { name := "A", sources := ["get"], sinks := ["sink"], modes := [], implicit := false }
    let put (x : String) (line : Int) : Stmt := .assign [.name x] .inert { line }
    let body : Stmt := .block [.assign [.name "x"] (.call "" "get" [] { line := 4 }) { line := 4 }]
    let orelse : Stmt := .block [.eval (.call "" "sink" [.name "x" { line := 6 }] { line := 6 })]
    let run (edition : Edition) (inner : List Stmt) : Option Fault × List (String × String) :=
      let ran := analyseProgram edition 5 [a] (.block ([put "x" 1, put "b" 2] ++ inner))
      (ran.1, ran.2.report.findings.keys.map fun s => (s.source, s.sink))
    let loses (edition : Edition) : Prop := run edition [body, orelse] = (none, [("get", "sink")]) ∧
      run edition [.loop (.name "b" { line := 3 }) body orelse] = (none, []) ∧
      run edition [.each (.name "i") (.name "b" { line := 3 }) body orelse { line := 3 }] = (none, [])
    loses .plain ∧ loses .scoped := by
  decide +kernel

end TaintFlow
