import TaintFlow.Proofs.Editions
import TaintFlow.Proofs.Sweep

/-
The flag of a pattern that says whether it minds implicit flows, in the plain edition. A test makes sources of
the variables it reads that have no value yet, but only for patterns that mind implicit flows, and they stay
sources when the variables are assigned later. So the flag adds explicit flows as well: those of the pattern
from variables that some test reads. No other explicit flow comes or goes with it, as long as the pattern is the
only one of its name.
-/
namespace TaintFlow

/-- A policy in which one pattern has its flag for implicit flows set or not. -/
def Policy.flagged (before : List Pattern) (p : Pattern) (after : List Pattern) (flag : Bool) : List Pattern :=
  before ++ { p with implicit := flag } :: after

/-- The variables read by tests that are no sources of the pattern. -/
def Stmt.teaches (program : Stmt) (p : Pattern) : List String := program.tested.filter fun x => !p.isSource x

namespace Tilt

variable (before : List Pattern) (p : Pattern) (after : List Pattern) (program : Stmt)

/-- The analyses without and with the flag. -/
def raising : Tilt where
  policy := Policy.flagged before p after false
  policy' := Policy.flagged before p after true
  spared := fun name s => name = p.name ∧ s ∈ program.teaches p
  hidden := fun name => name = p.name ∧ p.name ∈ (before ++ after).map (·.name) ∧ program.teaches p ≠ []
  raised := fun name => name = p.name
  taught := fun x => x ∈ program.tested

theorem lawful_raising : (raising before p after program).Lawful := by
  rintro _ s ⟨rfl, hs⟩ hshown
  have hother : p.name ∉ (before ++ after).map (·.name) := fun hmem => hshown ⟨rfl, hmem, List.ne_nil_of_mem hs⟩
  rw [List.map_append, List.mem_append, not_or] at hother
  show ((before ++ { p with implicit := false } :: after).map (·.name)).count p.name ≤ 1
  rw [List.map_append, List.map_cons, List.count_append, List.count_cons, List.count_eq_zero.2 hother.1,
    List.count_eq_zero.2 hother.2]
  split <;> omega

theorem matches_flagged :
    (raising before p after program).Matches { p with implicit := false } { p with implicit := true } where
  name := rfl
  sinks _ := rfl
  sanitizers _ := rfl
  sources _ h := h
  spared _ h := .inl h
  implicit h := by cases h
  taught _ := by
    refine .inr ⟨rfl, fun x hx => ?_⟩
    cases hsource : p.isSource x with
    | true => exact .inl hsource
    | false => exact .inr ⟨rfl, List.mem_filter.2 ⟨hx, by rw [hsource]; rfl⟩⟩

theorem beside_start : (raising before p after program).Beside (Path.start (Policy.flagged before p after false))
    (Path.start (Policy.flagged before p after true)) where
  left := Accord.tamed_of_sound (Path.sound_start _)
  right := Accord.tamed_of_sound (Path.sound_start _)
  initialized _ := Iff.rfl
  patterns := List.rel_append (List.forall₂_same.2 fun a _ => matches_self a)
    (.cons (matches_flagged before p after program) (List.forall₂_same.2 fun a _ => matches_self a))
  labels _ := .none

end Tilt

theorem outcome_of_finished [SetOrder] {edition : Edition} {limit : Nat} {patterns : List Pattern} {program : Stmt}
    (h : (analyseProgram edition limit patterns program).1 = none) :
    ∃ out, (program.analyse edition limit).outcome [Path.start patterns] {} =
      (.ok out, (analyseProgram edition limit patterns program).2.report) := by
  cases hout : (program.analyse edition limit [Path.start patterns] {}).paths? with
  | error f =>
    rw [fault_analyseProgram.2 hout] at h
    cases h
  | ok out => exact ⟨out, Prod.ext hout (report_analyseProgram edition limit patterns program).symm⟩

/-- Where both analyses come to an end, all explicit flows that are reported without the flag are reported with it,
and else only flows of the pattern from variables that tests read. If other patterns have its name too, this is
not said of the flows under this name. -/
theorem implicit_flag_adds_only_tested_sources [SetOrder] (limit limit' : Nat) (before : List Pattern) (p : Pattern)
    (after : List Pattern) (program : Stmt)
    (hoff : (analyseProgram .plain limit (Policy.flagged before p after false) program).1 = none)
    (hon : (analyseProgram .plain limit' (Policy.flagged before p after true) program).1 = none) :
    let off := (analyseProgram .plain limit (Policy.flagged before p after false) program).2.report
    let on := (analyseProgram .plain limit' (Policy.flagged before p after true) program).2.report
    let shared := p.name ∈ (before ++ after).map (·.name) ∧ program.teaches p ≠ []
    (∀ s marks, off.Recorded s .explicit marks → on.Recorded s .explicit marks ∨ s.pattern = p.name ∧ shared) ∧
      ∀ s marks, on.Recorded s .explicit marks →
        off.Recorded s .explicit marks ∨ s.pattern = p.name ∧ (s.source ∈ program.teaches p ∨ shared) := by
  obtain ⟨out, hout⟩ := outcome_of_finished hoff
  obtain ⟨out', hout'⟩ := outcome_of_finished hon
  have hmeets := program.meets_analyse limit limit' (Tilt.lawful_raising before p after program) fun _ hx => hx
  have htold := (hmeets (Tilt.facing_singleton (Tilt.beside_start before p after program)) hout hout').2
  constructor
  · intro s marks hrecorded
    exact (htold.told s marks hrecorded).resolve_left (Report.not_recorded_empty s .explicit marks)
  · intro s marks hrecorded
    have hcases := (htold.only s marks hrecorded).resolve_left (Report.not_recorded_empty s .explicit marks)
    refine hcases.imp_right fun hexempt => ?_
    rcases hexempt with ⟨hname, hs⟩ | ⟨hname, hshared⟩
    · exact ⟨hname, .inl hs⟩
    · exact ⟨hname, .inr hshared⟩

/-- A variable is tested before it has a value, then assigned, and the sink is called. -/
def Stmt.testedFirst (args : List Expr) : Stmt := .block [
  .branch (.name "t" { line := 1 }) (.block [.assign [.name "x"] .inert { line := 2 }]) (.block []),
  .assign [.name "t"] .inert { line := 3 },
  .eval (.call "" "sink" args { line := 4 })]

/-- The pattern of one source and one sink. -/
def Pattern.ofPair (name source sink : String) : Pattern :=
  { name, sources := [source], sinks := [sink], modes := [], implicit := false }

/-- In `sink(get(), t)` the flow from `get` is reported with the flag and without, and only flows from `t` are
added. -/
theorem implicit_flag_adds_only_tested_sources_at_get :
    let p := Pattern.ofPair "A" "get" "sink"
    let others : List Pattern := [.ofPair "B" "t" "x"]
    let program := Stmt.testedFirst [.call "" "get" [] { line := 4 }, .name "t" { line := 4 }]
    let off := (analyseProgram .plain 0 (Policy.flagged [] p others false) program).2.report
    let on := (analyseProgram .plain 0 (Policy.flagged [] p others true) program).2.report
    off.Recorded ⟨"A", "get", { line := 4 }, "sink", { line := 4 }⟩ .explicit [] ∧
    (∀ s marks, off.Recorded s .explicit marks → on.Recorded s .explicit marks) ∧
      ∀ s marks, on.Recorded s .explicit marks → off.Recorded s .explicit marks ∨ s.pattern = "A" ∧ s.source = "t" := by
  intro p others program off on
  have halone : p.name ∉ (([] : List Pattern) ++ others).map (·.name) := by decide
  have hteaches : program.teaches p = ["t"] := by decide
  obtain ⟨hkeeps, hadds⟩ := implicit_flag_adds_only_tested_sources 0 0 [] p others program (by decide +kernel)
    (by decide +kernel)
  refine ⟨by rw [Report.recorded_iff]; decide +kernel, fun s marks h => ?_, fun s marks h => ?_⟩
  · exact (hkeeps s marks h).resolve_right fun hs => halone hs.2.1
  · refine (hadds s marks h).imp_right fun ⟨hname, hs⟩ => ⟨hname, ?_⟩
    have hs := hs.resolve_right fun hs => halone hs.1
    rwa [hteaches, List.mem_singleton] at hs

/-- In `sink(t)` an explicit flow from `t` is reported with the flag only. And of three patterns of one name, the
second one hides in `sink(get(), t)` the flow that the first one reports, once its flag is set. -/
theorem implicit_flag_changes_explicit_flows :
    (let p := Pattern.ofPair "A" "get" "sink"
      let program := Stmt.testedFirst [.name "t" { line := 4 }]
      let off := analyseProgram .plain 0 (Policy.flagged [] p [] false) program
      let on := analyseProgram .plain 0 (Policy.flagged [] p [] true) program
      let s : Subject := ⟨"A", "t", { line := 4 }, "sink", { line := 4 }⟩
      off.1 = none ∧ on.1 = none ∧ ¬ off.2.report.Recorded s .explicit [] ∧ on.2.report.Recorded s .explicit []) ∧
    let before := [Pattern.ofPair "A" "get" "sink"]
    let p := Pattern.ofPair "A" "put" "sink"
    let after := [{ Pattern.ofPair "A" "get" "put" with sources := ["get", "t"] }]
    let program := Stmt.testedFirst [.call "" "get" [] { line := 4 }, .name "t" { line := 4 }]
    let off := analyseProgram .plain 0 (Policy.flagged before p after false) program
    let on := analyseProgram .plain 0 (Policy.flagged before p after true) program
    let s : Subject := ⟨"A", "get", { line := 4 }, "sink", { line := 4 }⟩
    off.1 = none ∧ on.1 = none ∧ off.2.report.Recorded s .explicit [] ∧ ¬ on.2.report.Recorded s .explicit [] := by
  dsimp only
  simp only [Report.recorded_iff]
  decide +kernel

end TaintFlow
