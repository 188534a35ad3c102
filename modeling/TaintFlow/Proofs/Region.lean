import TaintFlow.Proofs.Growth
import TaintFlow.Proofs.Lineage
import TaintFlow.Session

/-
Conditions do not outlive their regions. Branches and loops put the label of their condition on the control
stack and take labels off at several places, sometimes more often than they put one on. Still, the stack of a path
that comes out of a statement is a beginning of the stack of a path that went in, with the same flows level by level.
A program starts with an empty stack, so each of its statements that is in no region is analysed with an empty
stack, and the program ends with one.
-/
namespace TaintFlow

/-- Copies of a label with other references have the same flows. -/
theorem MultiLabel.sameFlows_mapPatterns (k : PatternRef → PatternRef) (m : Taint) : m.SameFlows (m.mapPatterns k) := by
  intro name
  rw [MultiLabel.get?_mapPatterns]
  cases m.entries.get? name with
  | none => exact .none
  | some t => exact .some (.refl t.label)

theorem Shortens.exists_sameFlows {C D : List Taint} (h : Shortens C D) :
    ∃ n, List.Forall₂ MultiLabel.SameFlows (C.take n) D := by
  obtain ⟨n, k, -, rfl⟩ := h
  refine ⟨n, List.forall₂_map_right_iff.2 (List.forall₂_same.2 fun m _ => ?_)⟩
  exact m.sameFlows_mapPatterns k

theorem Shortens.eq_nil {D : List Taint} (h : Shortens [] D) : D = [] := by
  obtain ⟨n, k, -, rfl⟩ := h
  simp

/-- A step that enters a region puts one label on the stack. -/
theorem Eval.Pushes.leads {enter : Eval Unit} (he : Eval.Pushes enter) {p q : Path} (h : Leads enter.outcome p q) :
    ∃ m, q.control = p.control ++ [m] := by
  obtain ⟨r, w, hrun, rfl⟩ := Eval.leads_outcome h
  exact he ⟨p, r⟩ w hrun

/-! ## Several paths -/

namespace Analysis

/-- Every path that comes out has a beginning of the stack of a path that went in. -/
def Prunes (a : Analysis) : Prop :=
  ∀ paths out, Leads a.outcome paths out → ∀ q ∈ out, ∃ p ∈ paths, Shortens p.control q.control

theorem prunes_idle : Prunes Run.idle := by
  intro paths out h q hq
  rw [leads_idle h] at hq
  exact ⟨q, hq, .refl _⟩

theorem Prunes.andThen {a b : Analysis} (ha : Prunes a) (hb : Prunes b) :
    Prunes fun paths report => (a paths report).andThen b := by
  intro paths out h q hq
  obtain ⟨mid, hmid, hout⟩ := leads_andThen h
  obtain ⟨p', hp', hq⟩ := hb mid out hout q hq
  obtain ⟨p, hp, hp'⟩ := ha paths mid hmid p' hp'
  exact ⟨p, hp, hp'.trans hq⟩

theorem prunes_onEach {step : Eval Unit} (hs : ∀ C, Eval.Keeps C step) : Prunes (onEach step) := by
  intro paths out h q hq
  obtain ⟨p, hp, hstep⟩ := forall₂_mem_right (leads_onEach h) q hq
  obtain ⟨r, w, hrun, rfl⟩ := Eval.leads_outcome hstep
  refine ⟨p, hp, ?_⟩
  have hcontrol := (hs p.control ⟨p, r⟩ rfl trivial).1
  rw [hrun] at hcontrol
  rw [hcontrol]
  exact .refl _

theorem prunes_fork {enter : Eval Unit} {body orelse : Analysis} (he : Eval.Pushes enter) (hb : Shortening body)
    (ho : Shortening orelse) : Prunes (fork enter body orelse [] []) := by
  intro paths out h
  obtain ⟨parts, hparts, rfl⟩ := leads_fork h
  -- paths that came out before are left again for each later path, which shortens their stacks once more
  refine mem_leaveAll ?_ (List.forall_mem_nil _) fun part hpart q hq => ?_
  · rintro q ⟨p, hp, hq⟩
    exact ⟨p, hp, hq.pop⟩
  · obtain ⟨p, hp, p', yes, no, henter, hyes, hno, rfl⟩ := forall₂_mem_right hparts part hpart
    obtain ⟨m, hm⟩ := he.leads henter
    refine ⟨p, hp, ?_⟩
    rcases List.mem_append.1 hq with hq | hq
    · obtain ⟨r, r', hyes⟩ := hyes
      exact hb.fork (.refl p.control) hm (congrArg Prod.fst hyes) hq
    · obtain ⟨r, r', hno⟩ := hno
      exact ho.fork (.refl p.control) hm (congrArg Prod.fst hno) hq

theorem prunes_loop {limit : Nat} {depth : Int} {enter : Eval Unit} {body orelse : Analysis} (he : Eval.Pushes enter)
    (hb : Shortening body) (ho : Shortening orelse) : Prunes (loop limit depth enter body orelse) := by
  intro paths out h q hq
  obtain ⟨parts, hparts, rfl⟩ := leads_loop h
  obtain ⟨part, hpart, hq⟩ := List.mem_flatten.1 hq
  obtain ⟨p, hp, r, r', hfrom⟩ := forall₂_mem_right hparts part hpart
  exact ⟨p, hp, keeps_loopFrom he hb ho p.control p r part r' (.refl _) hfrom q hq⟩

theorem Regional.prunes {a : Analysis} (h : Regional a) : Prunes a := by
  induction h with
  | idle => exact prunes_idle
  | stop fault => exact fun paths out h => absurd h not_leads_stop
  | onEach hs => exact prunes_onEach hs
  | andThen _ _ ha hb => exact ha.andThen hb
  -- the paths inside a region are copies of one path, so it is enough that their stacks begin that of the copy
  | fork he hb ho => exact prunes_fork he hb.shortening ho.shortening
  | loop he hb ho => exact prunes_loop he hb.shortening ho.shortening

end Analysis

open Analysis

theorem Stmt.prunes_analyse [SetOrder] (edition : Edition) (limit : Nat) (s : Stmt) :
    Prunes (s.analyse edition limit) :=
  (s.regional_analyse edition limit).prunes

/-! ## Whole programs -/

/-- A block goes on with its second part where its first part ends. -/
theorem Stmt.outcome_analyseBlock_append [SetOrder] (edition : Edition) (limit : Nat) (before rest : List Stmt)
    (paths : List Path) (report : Report) :
    outcome (Stmt.analyseBlock edition limit (before ++ rest)) paths report =
      chain (outcome (Stmt.analyseBlock edition limit before) paths report)
        (outcome (Stmt.analyseBlock edition limit rest)) := by
  induction before generalizing paths report with
  | nil =>
    rw [Stmt.analyseBlock.eq_def edition limit []]
    rfl
  | cons s before ih =>
    rw [List.cons_append, Stmt.analyseBlock, Stmt.analyseBlock, outcome_andThen, outcome_andThen]
    generalize outcome (s.analyse edition limit) paths report = x
    obtain ⟨x, report'⟩ := x
    cases x with
    | error fault => rfl
    | ok mid => exact ih mid report'

/-- From the start of a program a statement leads to paths outside of all regions. -/
theorem control_of_start [SetOrder] {edition : Edition} {limit : Nat} {patterns : List Pattern} {s : Stmt}
    {out : List Path} (h : Leads (outcome (s.analyse edition limit)) [Path.start patterns] out) :
    ∀ q ∈ out, q.control = [] := by
  intro q hq
  obtain ⟨p, hp, hq⟩ := s.prunes_analyse edition limit _ _ h q hq
  rw [List.mem_singleton.1 hp] at hq
  exact hq.eq_nil

/-- The stack of every path that comes out of a statement carries the flows of a beginning of the stack of a path that
went in. All paths at the end of a program have an empty stack, and so have those with which a statement of the
program that is in no region is analysed. -/
theorem control_stays_in_its_region [SetOrder] (edition : Edition) (limit : Nat) :
    (∀ (s : Stmt) paths report out, (s.analyse edition limit paths report).paths? = .ok out →
      ∀ q ∈ out, ∃ p ∈ paths, ∃ n, List.Forall₂ MultiLabel.SameFlows (p.control.take n) q.control) ∧
    (∀ patterns program, (analyseProgram edition limit patterns program).1 = none →
      ∀ q ∈ (analyseProgram edition limit patterns program).2.paths, q.control = []) ∧
    ∀ patterns before s after mid report,
      outcome (Stmt.analyseBlock edition limit before) [Path.start patterns] {} = (.ok mid, report) →
      outcome (Stmt.analyseBlock edition limit (before ++ s :: after)) [Path.start patterns] {} =
          chain (outcome (s.analyse edition limit) mid report) (outcome (Stmt.analyseBlock edition limit after)) ∧
        ∀ p ∈ mid, p.control = [] ∧ ∀ name source f, ¬ p.currentControl.Has name source f := by
  refine ⟨fun s paths report out h q hq => ?_, fun patterns program h => ?_, ?_⟩
  · obtain ⟨p, hp, hq⟩ := s.prunes_analyse edition limit paths out (leads_of_paths? h) q hq
    exact ⟨p, hp, hq.exists_sameFlows⟩
  · unfold analyseProgram Session.run Session.start at h ⊢
    dsimp only at h ⊢
    cases hout : (program.analyse edition limit [Path.start patterns] {}).paths? with
    | error fault =>
      rw [hout] at h
      cases h
    | ok out => exact control_of_start (leads_of_paths? hout)
  · intro patterns before s after mid report hmid
    refine ⟨?_, fun p hp => ?_⟩
    · rw [Stmt.outcome_analyseBlock_append, hmid, ← outcome_andThen, Stmt.analyseBlock]
      rfl
    · have hblock : Leads (outcome ((Stmt.block before).analyse edition limit)) [Path.start patterns] mid := by
        rw [Stmt.analyse]
        exact ⟨_, _, hmid⟩
      have hp := control_of_start hblock p hp
      refine ⟨hp, ?_⟩
      unfold Path.currentControl
      rw [hp]
      exact p.not_has_clean

/-- A loop with a simple body takes off two levels in each round where it put on one, so the paths of its rounds and the
path that skips it keep one level of the two they came with, or none. -/
theorem control_of_loop_shortened :
    let a : Pattern := { name := "A", sources := ["get"], sinks := ["sink"], modes := [], implicit := true }
    let m : Taint := (Path.start [a]).addSource (Path.start [a]).clean "get" { line := 1 }
    let p : Path := ((Path.start [a]).push m).push m
    let s : Stmt := .loop (.name "c" { line := 2 })
      (.block [.assign [.name "x"] (.call "" "get" [] { line := 3 }) { line := 3 }]) (.block [])
    ∃ out, (s.analyse .plain 5 [p] {}).paths? = .ok out ∧ out.map (·.control.length) = [1, 0, 0, 0] ∧
      ∀ q ∈ out, ∃ p' ∈ [p], ∃ n, List.Forall₂ MultiLabel.SameFlows (p'.control.take n) q.control := by
  intro a m p s
  have hheights : (s.analyse .plain 5 [p] {}).paths?.toOption.map (·.map (·.control.length)) = some [1, 0, 0, 0] := by
    decide +kernel
  cases hout : (s.analyse .plain 5 [p] {}).paths? with
  | error fault =>
    rw [hout] at hheights
    cases hheights
  | ok out =>
    rw [hout] at hheights
    exact ⟨out, rfl, Option.some.inj hheights, (control_stays_in_its_region .plain 5).1 s [p] {} out hout⟩

end TaintFlow
