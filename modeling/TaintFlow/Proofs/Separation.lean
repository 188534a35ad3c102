import TaintFlow.Proofs.Editions
import TaintFlow.Proofs.Independence

/-
Patterns do not interfere. The sources that are found on a path are added to every pattern alike, and the
flows of a pattern depend on no other, so that a pattern of a policy reports what it reports as the only
pattern. The run under the policy is compared with the run under the pattern alone, for the flows of that
pattern.
-/
namespace TaintFlow

namespace Accord

/-- Runs whose flows passed only sanitizers of the patterns of their name. -/
def loose (edition : Edition) (policy : List Pattern) : Accord := { explicit edition policy with strict := False }

variable {edition : Edition} {policy : List Pattern}

theorem lawful_loose : (loose edition policy).Lawful where
  listed := fun _ _ _ h => h
  own := fun _ _ => trivial
  kept := fun _ _ _ _ _ _ => trivial
  apart := fun h => h.elim

theorem open_loose [SetOrder] (h : Policy.Coherent edition policy) : (loose edition policy).Open where
  names := fun _ => trivial
  raw := fun _ _ _ _ _ _ => List.forall_mem_nil _
  sanitizes := sanitizes_explicit h
  faults := fun h => h

theorem tamed_loose_start : (loose edition policy).Tamed (Path.start policy) where
  patterns := rfl
  sources := fun _ _ _ _ => trivial
  initialized := fun _ _ => trivial
  keys := fun _ _ _ => trivial
  labels := fun _ _ hm => by cases hm
  control := List.forall_mem_nil _
  controlKeys := fun _ _ _ => trivial
  controlLabels := fun _ _ hm => by cases hm

end Accord

namespace Bridge

/-- The whole policy on the left, one of its patterns on the right; the flows of that pattern are compared. -/
def singled (edition : Edition) (policy : List Pattern) (p : Pattern) : Bridge where
  left := .loose edition policy
  right := .loose edition [p]
  proj := id
  shared := (· = p.name)
  full := True
  level := Eq
  Sight := List Mark
  sight := id

variable {edition : Edition} {policy : List Pattern} {p : Pattern}

theorem sees_singled {r : Report} {s : Subject} {kind : FlowKind} {marks : List Mark} :
    (singled edition policy p).Sees r s kind marks ↔ r.Recorded s kind marks := exists_eq_right

theorem lawful_singled [SetOrder] (hnames : (policy.map (·.name)).Nodup) : (singled edition policy p).Lawful where
  left := Accord.lawful_loose
  right := Accord.lawful_loose
  free := Accord.open_loose (Policy.coherent_of_nodup hnames edition)
  free' := Accord.open_loose (Policy.coherent_of_nodup (by simp) edition)
  loose := id
  loose' := id
  place := by
    rintro k _ spot rfl
    rfl
  shift := by
    rintro k _ d rfl
    rfl

theorem twin_start_singled [SetOrder] (hnames : (policy.map (·.name)).Nodup) (hp : p ∈ policy) :
    (singled edition policy p).Twin (Path.start policy) (Path.start [p]) where
  left := Accord.tamed_loose_start
  right := Accord.tamed_loose_start
  initialized := fun _ => Iff.rfl
  patterns := by
    -- under both policies the pattern is the only one of its name
    rintro _ rfl
    rw [Path.named_of_nodup hnames hp, Path.named_of_nodup (by simp [Path.start]) (List.mem_singleton_self p)]
    exact .cons ⟨rfl, fun _ => rfl, fun _ => rfl, fun _ => rfl, rfl, fun _ _ _ => rfl⟩ .nil
  labels := fun _ => .none
  control := fun _ => .nil
  controlLabels := fun _ => .none
  scope := rfl

end Bridge

/-- A pattern reports the same flows under a policy as alone, and both analyses stop with the same fault or none. -/
theorem patterns_do_not_interfere [SetOrder] {edition : Edition} {policy : List Pattern}
    (hnames : (policy.map (·.name)).Nodup) {program : Stmt} (hloops : program.LoopFree) {p : Pattern}
    (hp : p ∈ policy) (limit limit' : Nat) :
    (analyseProgram edition limit policy program).1 = (analyseProgram edition limit' [p] program).1 ∧
      ∀ s kind marks, s.pattern = p.name →
        ((analyseProgram edition limit policy program).2.report.Recorded s kind marks ↔
          (analyseProgram edition limit' [p] program).2.report.Recorded s kind marks) := by
  have hlawful : (Bridge.singled edition policy p).Lawful := Bridge.lawful_singled hnames
  have hrun := Bridge.abreast_analyse hlawful limit limit' program hloops (.inl rfl)
    _ _ (.cons (Bridge.twin_start_singled hnames hp) .nil) {} {}
  constructor
  · refine Option.ext fun f => ?_
    rw [fault_analyseProgram, fault_analyseProgram]
    exact hrun.fault f
  · intro s kind marks hs
    rw [report_analyseProgram, report_analyseProgram]
    obtain ⟨New, hnew⟩ := hrun.added
    obtain ⟨hleft, hright⟩ := hnew s kind marks ⟨hs, .inr trivial⟩
    simp only [Bridge.sees_singled, Report.not_recorded_empty, false_or] at hleft hright
    refine hleft.trans (Iff.trans ⟨fun h => ⟨s, h, rfl⟩, ?_⟩ hright.symm)
    rintro ⟨t, ht, rfl⟩
    exact ht

/-- In `x = esc(get(y))` and `if y: sink(x)` the first of two patterns reports an explicit flow that passed its
sanitizer, with the second pattern and without it, although that one takes `esc` for a source. -/
theorem patterns_do_not_interfere_at_shared_sink :
    let a : Pattern :=
      { name := "A", sources := ["get"], sinks := ["sink"], modes := [("esc", .text "show")], implicit := true }
    let b : Pattern := { name := "B", sources := ["esc"], sinks := ["sink"], modes := [], implicit := false }
    let value : Expr := .call "" "esc" [.call "" "get" [.name "y" { line := 1, column := 12 }]
      { line := 1, column := 8 }] { line := 1, column := 4 }
    let program : Stmt := .block [.assign [.name "x"] value { line := 1 },
      .branch (.name "y" { line := 2, column := 3 }) (.block [.eval (.call "" "sink"
        [.name "x" { line := 3, column := 7 }] { line := 3, column := 2 })]) (.block [])]
    let s : Subject := ⟨"A", "get", { line := 1, column := 8 }, "sink", { line := 3, column := 2, scope := 1 }⟩
    (analyseProgram .scoped 0 [a, b] program).2.report.Recorded s .explicit [.sanitizer "esc" 1] ∧
    (analyseProgram .scoped 0 [a, b] program).1 = (analyseProgram .scoped 0 [a] program).1 ∧
      ∀ s kind marks, s.pattern = "A" →
        ((analyseProgram .scoped 0 [a, b] program).2.report.Recorded s kind marks ↔
          (analyseProgram .scoped 0 [a] program).2.report.Recorded s kind marks) := by
  intro a b value program s
  refine ⟨?_, patterns_do_not_interfere (by decide) ?_ (List.mem_cons_self ..) 0 0⟩
  · rw [Report.recorded_iff]
    decide +kernel
  · exact ⟨trivial, ⟨⟨trivial, trivial⟩, trivial⟩, trivial⟩

end TaintFlow
