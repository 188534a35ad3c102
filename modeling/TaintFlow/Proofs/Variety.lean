import TaintFlow.Proofs.Diversity
import TaintFlow.Proofs.ImplicitFlag

/-
Programs whose reports repeat no flow, in the plain edition. If no two calls of sanitizers have the same name and line,
and none stands in a loop, a flow comes to every call for the first time, on every path. A statement then takes paths on
which some calls were passed to paths on which its own were passed, too, and all labels stay diverse.
-/
namespace TaintFlow

open Listing

/-! ## Statements -/

mutual

/-- The sites of a statement that stand in loops. -/
def Stmt.loopSites : Stmt → List Site
  | .block body => Stmt.allLoopSites body
  | .branch _ body orelse => body.loopSites ++ orelse.loopSites
  | .loop test body orelse => (Stmt.loop test body orelse).sites
  | .each target iter body orelse spot => (Stmt.each target iter body orelse spot).sites
  | .skip | .assign _ _ _ | .annotated _ _ _ | .augmented _ _ _ _ | .eval _ | .fails _ => []

def Stmt.allLoopSites : List Stmt → List Site
  | [] => []
  | s :: rest => s.loopSites ++ Stmt.allLoopSites rest

end

/-- Where no sanitizer is called, nothing is passed. -/
theorem Site.unseen_of_forall {sanitizes : String → Bool} {order done : List Mark} {sites : List Site}
    (horder : order.Nodup) (hdone : done.Sublist order) (h : ∀ site ∈ sites, site.mark? sanitizes = none) :
    Unseen sanitizes order done done sites := by
  have hmarks : marks sanitizes sites = [] := List.filterMap_eq_nil_iff.2 h
  refine ⟨?_, hdone, horder⟩
  rw [hmarks, List.append_nil]

theorem stepsUphold_diverse [SetOrder] {sanitizes : String → Bool} {order done : List Mark} (horder : order.Nodup)
    (hdone : done.Sublist order) :
    StepsUphold .plain (Path.Diverse sanitizes done) (Report.Unrepeated order)
      (fun site => site.mark? sanitizes = none) True := by
  have hkeeps : ∀ {α : Type} {x : Eval α} {Q : α → World → Prop},
      Eval.Secures (Eval.Varied sanitizes order done) (Eval.Varied sanitizes order done) x Q →
        x.Preserves (Eval.Varied sanitizes order done) :=
    fun hx w hw _ => ⟨(hx w hw hw).1, fun _ _ => trivial⟩
  constructor
  case evaluates =>
    intro e hs
    exact (e.gives_evaluate (Site.unseen_of_forall horder hdone hs) .value).preserves.discard.upholds fun _ => .rfl
  case assigns =>
    intro targets value spot hs
    exact (hkeeps (Eval.secures_assign (Site.unseen_of_forall horder hdone hs))).discard.upholds fun _ => .rfl
  case tests =>
    intro _ test hs
    exact (hkeeps (Eval.secures_enterTest (Site.unseen_of_forall horder hdone hs))).upholds fun _ => .rfl
  case items =>
    intro _ target iter spot hs
    exact (hkeeps (Eval.secures_enterItem (Site.unseen_of_forall horder hdone hs))).upholds fun _ => .rfl
  case inherited => exact fun _ => Path.inherited_diverse

namespace Analysis

variable {P P' P₁ : Path → Prop} {R : Report → Prop} {a b : Analysis}

/-- From paths and a report with properties, the analysis comes to paths and a report with properties, unless a fault
stops it. -/
def Takes (P P' : Path → Prop) (R : Report → Prop) (a : Analysis) : Prop :=
  ∀ paths r out r', (∀ p ∈ paths, P p) → R r → a.outcome paths r = (.ok out, r') → (∀ q ∈ out, P' q) ∧ R r'

theorem Takes.imp (h : Takes P P₁ R a) (hP : ∀ p, P₁ p → P' p) : Takes P P' R a := by
  intro paths r out r' hp hr hrun
  obtain ⟨hout, hr'⟩ := h paths r out r' hp hr hrun
  exact ⟨fun q hq => hP q (hout q hq), hr'⟩

theorem takes_idle (hP : ∀ p, P p → P' p) : Takes P P' R Run.idle := by
  intro paths r out r' hp hr hrun
  cases hrun
  exact ⟨fun q hq => hP q (hp q hq), hr⟩

theorem takes_stop (fault : Fault) : Takes P P' R fun paths report => .stop paths report fault := by
  intro paths r out r' _ _ hrun
  cases hrun

theorem Takes.andThen (ha : Takes P P₁ R a) (hb : Takes P₁ P' R b) :
    Takes P P' R fun paths report => (a paths report).andThen b := by
  intro paths r out r' hp hr hrun
  rw [outcome_andThen] at hrun
  obtain ⟨mid, r₁, hmid, hrun⟩ := chain_ok hrun
  obtain ⟨hp, hr⟩ := ha paths r mid r₁ hp hr hmid
  exact hb mid r₁ out r' hp hr hrun

theorem Upholds.takes {inside : List Path → Report → List Path} (h : Upholds P R a inside) : Takes P P R a := by
  intro paths r out r' hp hr hrun
  obtain ⟨-, -, hout, hr'⟩ := h paths r hp hr
  have hreport : (a paths r).report = r' := congrArg Prod.snd hrun
  rw [← hreport]
  exact ⟨hout out (congrArg Prod.fst hrun), hr'⟩

theorem takes_onEach {step : Eval Unit}
    (hstep : ∀ {p q r r'}, P p → R r → step.outcome p r = (.ok q, r') → P' q ∧ R r') : Takes P P' R (onEach step) := by
  intro paths
  induction paths with
  | nil =>
    intro r out r' _ hr hrun
    cases hrun
    exact ⟨List.forall_mem_nil _, hr⟩
  | cons p rest ih =>
    intro r out r' hp hr hrun
    rw [List.forall_mem_cons] at hp
    rw [outcome_onEach_cons] at hrun
    obtain ⟨q, r₁, hq, hrun⟩ := chain_ok hrun
    obtain ⟨others, r₂, hothers, hrun⟩ := chain_ok hrun
    cases hrun
    obtain ⟨hq, hr⟩ := hstep hp.1 hr hq
    obtain ⟨hothers, hr⟩ := ih _ _ _ hp.2 hr hothers
    exact ⟨List.forall_mem_cons.2 ⟨hq, hothers⟩, hr⟩

theorem takes_fork {enter : Eval Unit} (hP' : Path.Inherited P') (hP : ∀ p, P p → P { p with scope := p.scope + 1 })
    (henter : ∀ {p q r r'}, P p → R r → enter.outcome p r = (.ok q, r') → P₁ q.fork ∧ R r') (ha : Takes P₁ P' R a)
    (hb : Takes P₁ P' R b) : ∀ {paths : List Path} (done : List Path) {new out : List Path} {r r' : Report},
      (∀ p ∈ paths, P p) → (∀ q ∈ new, P' q) → R r →
        outcome (fork enter a b done new) paths r = (.ok out, r') → (∀ q ∈ out, P' q) ∧ R r'
  | [], _, _, _, _, _, _, hnew, hr, hrun => by
    cases hrun
    exact ⟨hnew, hr⟩
  | p :: rest, done, new, out, r, r', hp, hnew, hr, hrun => by
    rw [List.forall_mem_cons] at hp
    rw [outcome_fork_cons] at hrun
    obtain ⟨q, r₁, hq, hrun⟩ := chain_ok hrun
    obtain ⟨yes, r₂, hyes, hrun⟩ := chain_ok hrun
    obtain ⟨no, r₃, hno, hrun⟩ := chain_ok hrun
    obtain ⟨hq, hr⟩ := henter (hP p hp.1) hr hq
    obtain ⟨hyes, hr⟩ := ha _ _ _ _ (List.forall_mem_singleton.2 hq) hr hyes
    obtain ⟨hno, hr⟩ := hb _ _ _ _ (List.forall_mem_singleton.2 hq) hr hno
    have hall : ∀ u ∈ new ++ yes ++ no, P' u :=
      List.forall_mem_append.2 ⟨List.forall_mem_append.2 ⟨hnew, hyes⟩, hno⟩
    exact takes_fork hP' hP henter ha hb _ hp.2
      (List.forall_mem_map.2 fun u hu => hP'.scope _ _ (hP'.pop u (hall u hu))) hr hrun

end Analysis

section Statements

variable {sanitizes : String → Bool} {order : List Mark}

open Analysis

theorem Eval.Secures.discard {α : Type} {I P : World → Prop} {x : Eval α} {Q : α → World → Prop}
    (hx : Secures I P x Q) : Secures I P (Functor.discard x) fun _ _ => True :=
  hx.bind fun _ => .pure fun _ _ _ => trivial

/-- A simple statement leaves what it has passed. -/
theorem Eval.Secures.takes [SetOrder] {done more : List Mark} {x : Eval Unit} {Q : Unit → World → Prop}
    (hx : Secures (Varied sanitizes order more) (Varied sanitizes order done) x Q) (hle : done.Sublist more)
    {p q : Path} {r r' : Report} (hp : p.Diverse sanitizes done) (hr : r.Unrepeated order)
    (hrun : x.outcome p r = (.ok q, r')) :
    q.Diverse sanitizes more ∧ r'.Unrepeated order := by
  have hv := (hx ⟨p, r⟩ ⟨hp.mono hle, hr⟩ ⟨hp, hr⟩).1
  rwa [Eval.outcome_ok hrun] at hv

mutual

/-- A statement whose calls of sanitizers were not passed before leaves diverse labels and repeats no flow, if its loops
call none. -/
theorem Stmt.takes_analyse [SetOrder] (limit : Nat) : ∀ (s : Stmt) {done more : List Mark},
    Site.Unseen sanitizes order done more s.sites → (∀ site ∈ s.loopSites, site.mark? sanitizes = none) →
      Takes (Path.Diverse sanitizes done) (Path.Diverse sanitizes more) (Report.Unrepeated order)
        (s.analyse .plain limit)
  | .skip, done, more, h, _ => by
    rw [Stmt.analyse.eq_def]
    exact takes_idle fun p hp => hp.mono h.kept
  | .block body, done, more, h, hloops => by
    rw [Stmt.sites] at h
    rw [Stmt.loopSites] at hloops
    rw [Stmt.analyse.eq_def]
    exact Stmt.takes_analyseBlock limit body h hloops
  | .assign targets value spot, done, more, h, _ => by
    rw [Stmt.sites] at h
    rw [Stmt.analyse.eq_def]
    exact takes_onEach ((Eval.secures_assign h).discard.takes h.kept)
  | .annotated target value spot, done, more, h, _ | .augmented target current value spot, done, more, h, _ => by
    rw [Stmt.analyse.eq_def]
    exact takes_idle fun p hp => hp.mono h.kept
  | .eval value, done, more, h, _ => by
    rw [Stmt.sites] at h
    rw [Stmt.analyse.eq_def]
    exact takes_onEach (((value.gives_evaluate h .value).weaken fun _ hw => hw.mono h.kept).discard.takes h.kept)
  | .branch test body orelse, done, more, h, hloops => by
    rw [Stmt.sites, List.append_assoc] at h
    rw [Stmt.loopSites, List.forall_mem_append] at hloops
    rw [Stmt.analyse.eq_def]
    obtain ⟨mid, htest, hrest⟩ := h.split
    intro paths r out r' hp hr hrun
    refine takes_fork Path.inherited_diverse (fun p hp => Path.inherited_diverse.scope p _ hp) (fun hp hr hrun => ?_)
      (body.takes_analyse limit hrest.left hloops.1) (orelse.takes_analyse limit hrest.right hloops.2) [] hp
      (List.forall_mem_nil _) hr hrun
    obtain ⟨hq, hr⟩ := (Eval.secures_enterTest htest).takes htest.kept hp hr hrun
    exact ⟨Path.inherited_diverse.fork _ hq, hr⟩
  | .loop test body orelse, done, more, h, hloops | .each target iter body orelse spot, done, more, h, hloops => by
    rw [Stmt.loopSites] at hloops
    have hdone := h.kept.trans h.within
    exact ((stepsUphold_diverse h.once hdone).upholds_analyse limit _ hloops (.inl trivial)).takes.imp
      fun p hp => hp.mono h.kept
  | .fails fault, done, more, _, _ => by
    rw [Stmt.analyse.eq_def]
    exact takes_stop fault

theorem Stmt.takes_analyseBlock [SetOrder] (limit : Nat) : ∀ (body : List Stmt) {done more : List Mark},
    Site.Unseen sanitizes order done more (Stmt.allSites body) →
      (∀ site ∈ Stmt.allLoopSites body, site.mark? sanitizes = none) →
        Takes (Path.Diverse sanitizes done) (Path.Diverse sanitizes more) (Report.Unrepeated order)
          (Stmt.analyseBlock .plain limit body)
  | [], done, more, h, _ => by
    rw [Stmt.analyseBlock.eq_def]
    exact takes_idle fun p hp => hp.mono h.kept
  | s :: rest, done, more, h, hloops => by
    rw [Stmt.allSites] at h
    rw [Stmt.allLoopSites, List.forall_mem_append] at hloops
    rw [Stmt.analyseBlock.eq_def]
    obtain ⟨mid, hs, hrest⟩ := h.split
    exact (s.takes_analyse limit hs hloops.1).andThen (Stmt.takes_analyseBlock limit rest hrest hloops.2)

end

end Statements

/-! ## Programs -/

theorem unrepeated_analyseProgram [SetOrder] {limit : Nat} {patterns : List Pattern} {program : Stmt}
    (hdone : (analyseProgram .plain limit patterns program).1 = none)
    (hfresh : (Site.marks (fun f => patterns.any (·.isSanitizer f)) program.sites).Nodup)
    (hloops : Site.marks (fun f => patterns.any (·.isSanitizer f)) program.loopSites = []) :
    (analyseProgram .plain limit patterns program).2.report.Unrepeated
      (Site.marks (fun f => patterns.any (·.isSanitizer f)) program.sites) := by
  obtain ⟨out, hrun⟩ := outcome_of_finished hdone
  have hstart : (Path.start patterns).Diverse (fun f => patterns.any (·.isSanitizer f)) [] :=
    ⟨fun f hf => hf, fun m hm => absurd hm (Path.not_stores_start patterns m)⟩
  exact (program.takes_analyse limit ⟨.refl _, .refl _, hfresh⟩ (List.filterMap_eq_nil_iff.1 hloops) _ _ _ _
    (List.forall_mem_singleton.2 hstart) (Report.unrepeated_empty _) hrun).2

/-- A report whose flows passed calls in one order lists them differently only if they passed different ones. -/
theorem Report.Unrepeated.varied [SetOrder] {order : List Mark} {r : Report} (h : r.Unrepeated order)
    (horder : order.Nodup) {s : Subject} {flows : List Sighting} (hs : r.noted s = some flows) : Varied flows := by
  obtain ⟨hnodup, halong⟩ := h s flows hs
  refine varied_iff.2 ⟨hnodup, fun a ha b hb halike => ?_⟩
  have hmarks := (halong a ha).ext horder (halong b hb) halike.2
  obtain ⟨kind, marks⟩ := a
  obtain ⟨kind', marks'⟩ := b
  rw [show kind = kind' from halike.1, show marks = marks' from hmarks]

/-- In whatever order sets are listed, the flows of an entry are those that the first submission for its subject has, as
often as it has them, and then what later ones have besides. They are pairwise different as pairs of kind and
sanitizers, if and only if the first submission has no flow twice and none of the same sanitizers in two orders come
into the entry. They are pairwise different in all entries, if no two calls of sanitizers in the program have the same
name and line and no loop calls one. -/
theorem entries_without_repeated_flows [SetOrder] {limit : Nat} {patterns : List Pattern} {program : Stmt}
    {es : List Report.Entry} (hdone : (analyseProgram .plain limit patterns program).1 = none)
    (hes : (analyseProgram .plain limit patterns program).2.report.entries = .ok es) :
    (∃ paths log, Logs .plain ((program.analyse .plain limit).outcome [Path.start patterns]) (.ok paths) log ∧
      ∀ e ∈ es, ∃ before c after, log = before ++ c :: after ∧ (∀ b ∈ before, b.sightings e.subject = []) ∧
        c.sightings e.subject ≠ [] ∧
        e.flows = after.foldl (fun flows b => union flows (b.sightings e.subject)) (c.sightings e.subject) ∧
        (Report.Varied e.flows ↔
          (c.sightings e.subject).Nodup ∧ ∀ a ∈ e.flows, ∀ b ∈ e.flows, a.Alike b → a = b)) ∧
    ((Site.marks (fun f => patterns.any (·.isSanitizer f)) program.sites).Nodup →
      Site.marks (fun f => patterns.any (·.isSanitizer f)) program.loopSites = [] →
        ∀ e ∈ es, Report.Varied e.flows) := by
  have hfound : ∀ e ∈ es, (analyseProgram .plain limit patterns program).2.report.findings.get? e.subject =
      some (e.name, e.flows) := by
    intro e he
    obtain ⟨finding, hf, rfl⟩ := List.mem_map.1 ((Report.perm_of_entries hes).mem_iff.1 he)
    exact Table.mem_entries.1 hf
  constructor
  · obtain ⟨paths, log, hlogs, hflows⟩ := findings_analyseProgram hdone
    refine ⟨paths, log, hlogs, fun e he => ?_⟩
    obtain ⟨before, c, after, hsplit, hbefore, hc, hfold, hnodup⟩ := hflows e.subject e.name e.flows (hfound e he)
    exact ⟨before, c, after, hsplit, hbefore, hc, hfold, Report.varied_iff.trans (and_congr_left fun _ => hnodup)⟩
  · intro hfresh hloops e he
    have hnoted : (analyseProgram .plain limit patterns program).2.report.noted e.subject = some e.flows := by
      rw [Report.noted, hfound e he, Option.map_some]
    exact (unrepeated_analyseProgram hdone hfresh hloops).varied hfresh hnoted

namespace Reescaping

def policy : Pattern :=
  { name := "A", sources := ["get"], sinks := ["sink"], modes := [("esc", .text "show")], implicit := false }

def x : Expr := .name "x" { line := 2 }

def pass (function : String) (e : Expr) (line : Int) : Expr := .call "" function [e] { line }

def esc (e : Expr) (line : Int) : Expr := pass "esc" e line

def assign (id : String) (e : Expr) (line : Int) : Stmt := .assign [.name id] e { line }

/-- `x = get()` at line 1, and a sink after more statements. -/
def escaping (body : List Stmt) (e : Expr) (line : Int) : Stmt :=
  .block (assign "x" (.call "" "get" [] { line := 1 }) 1 :: body ++ [.eval (pass "sink" e line)])

/-- The flows from `get` to the sink are all that is found. -/
theorem entries_of_found (p : Pattern) (program : Stmt) (line : Int) (flows : List Sighting)
    (h : (analyseProgram .plain 5 [p] program).2.report.findings.entries =
      [(⟨"A", "get", { line := 1 }, "sink", { line }⟩, Report.numbered "A" 1, flows)])
    (hmet : "A" ∈ (analyseProgram .plain 5 [p] program).2.report.discovered) :
    ∃ es, (analyseProgram .plain 5 [p] program).2.report.entries = .ok es ∧ es.map (·.flows) = [flows] :=
  ⟨_, Report.entries_of_single h (show '_' ∉ "A".toList by decide) hmet, rfl⟩

end Reescaping

open Reescaping in
/-- After `if x: y = x + esc(x) else: y = esc(x)` and `while c: z = y`, with calls of `esc` at lines 3 and 4, the flows
of `sink(esc(y + z))` at line 6 are different. -/
theorem entries_of_escaping_branches_vary :
    let read (id : String) (line : Int) : Expr := .name id { line }
    let program : Stmt := escaping [assign "c" .inert 1, assign "z" .inert 1,
      .branch x (assign "y" (.binary (read "x" 3) (esc (read "x" 3) 3)) 3) (assign "y" (esc (read "x" 4) 4) 4),
      .loop (read "c" 5) (assign "z" (read "y" 5) 5) .skip] (esc (.binary (read "y" 6) (read "z" 6)) 6) 6
    let passed (lines : List Int) : Sighting := { kind := .explicit, marks := lines.map (.sanitizer "esc") }
    ∃ es, (analyseProgram .plain 5 [policy] program).2.report.entries = .ok es ∧
      es.map (·.flows) = [[passed [6], passed [3, 6], passed [4, 6]]] ∧ ∀ e ∈ es, Report.Varied e.flows := by
  intro read program passed
  obtain ⟨es, hes, hflows⟩ := entries_of_found policy program 6 [passed [6], passed [3, 6], passed [4, 6]]
    (by decide +kernel) (by decide +kernel)
  exact ⟨es, hes, hflows,
    (entries_without_repeated_flows (by decide +kernel) hes).2 (by decide +kernel) (by decide +kernel)⟩

open Reescaping in
/-- With both calls of `esc` at line 2, the flows of `sink(esc(x + esc(x)))`, and those of `sink(esc(y))` after
`y = x + esc(x)` at the same line, come to have passed the same. Where sets are listed as they were filled, those of
`sink(strip(esc(x)))` and of `sink(esc(strip(x)))` at one line have passed the same in two orders. -/
theorem entries_with_repeated_flows :
    let lists (p : Pattern) (program : Stmt) (passed : List (List Mark)) : Prop :=
      (analyseProgram .plain 5 [p] program).1 = none ∧
        ∃ es, (analyseProgram .plain 5 [p] program).2.report.entries = .ok es ∧
          es.map (·.flows) = [passed.map fun marks => { kind := .explicit, marks }]
    let escaped : Mark := .sanitizer "esc" 2
    let stripped : Mark := .sanitizer "strip" 2
    lists policy (escaping [] (esc (.binary x (esc x 2)) 2) 2) [[escaped], [escaped]] ∧
      lists policy (escaping [assign "y" (.binary x (esc x 2)) 2] (esc (.name "y" { line := 2 }) 2) 2)
        [[escaped], [escaped]] ∧
      lists { policy with modes := [("esc", .text "show"), ("strip", .text "show")] }
        (escaping [.eval (pass "sink" (pass "strip" (esc x 2) 2) 2)] (esc (pass "strip" x 2) 2) 2)
        [[escaped, stripped], [stripped, escaped]] :=
  ⟨⟨by decide +kernel, entries_of_found _ _ 2 _ (by decide +kernel) (by decide +kernel)⟩,
    ⟨by decide +kernel, entries_of_found _ _ 2 _ (by decide +kernel) (by decide +kernel)⟩,
    ⟨by decide +kernel, entries_of_found _ _ 2 _ (by decide +kernel) (by decide +kernel)⟩⟩

end TaintFlow
