import Mathlib.Data.List.Nodup
import TaintFlow.PatternFile
import TaintFlow.Proofs.Lockstep

/-
Explicit taint does not depend on conditions. Take two paths that differ only in the labels of the
conditions around them and in what conditions left on their variables. Whatever is analysed from there,
both runs stop with the same fault or go on with as many paths, one by one with the same explicit taint,
and the same explicit flows are reported. The number of iterations that a loop search tries is the same
in both runs as well, so that a search that never settles does so in both.

What conditions depend on can make a difference in one way: a report looks up the modes of the
sanitizers that a flow passed, and stops at one that it does not find. So patterns of one name have to
know the same sanitizers (`Policy.Coherent`), and the flows of the paths must have passed no others
(`Path.Regular`). Policies are coherent if no two patterns share a name, and every path that the analysis
reaches under a coherent policy is regular.
-/
namespace TaintFlow

open Listing

/-- The flows passed only sanitizers that all patterns of their name list. -/
def MultiLabel.Regular (edition : Edition) (policy : List Pattern) (m : Taint) : Prop :=
  ∀ name s f, m.Has name s f → ∀ p ∈ policy, p.name = name → ∀ k ∈ f.marks, k.Listed edition p

/-- All flows on the path passed only sanitizers that the patterns of their name list. -/
structure Path.Regular (edition : Edition) (p : Path) : Prop where
  labels : ∀ x m, p.labels.get? x = some m → MultiLabel.Regular edition p.patterns m
  control : ∀ m ∈ p.control, MultiLabel.Regular edition p.patterns m
  controlLabels : ∀ x m, p.controlLabels.get? x = some m → MultiLabel.Regular edition p.patterns m

/-- The paths differ at most in what the conditions around them depend on, and in what conditions left on
variables. -/
structure Path.DifferInControl (p q : Path) : Prop where
  labels : p.labels = q.labels
  initialized : p.initialized = q.initialized
  patterns : p.patterns = q.patterns
  depth : p.control.length = q.control.length
  scope : p.scope = q.scope

/-- The paths have the same explicit taint, under equally many conditions, at the same level. -/
structure Path.AgreeOutsideControl (edition : Edition) (p q : Path) : Prop extends p.SameExplicit q where
  depth : p.control.length = q.control.length
  scope : edition = .scoped → p.scope = q.scope

/-- Both runs stop with the same fault, or go on with as many paths, related one by one. -/
inductive SameAnswer (R : Path → Path → Prop) : Except Fault (List Path) → Except Fault (List Path) → Prop where
  | ok {out out' : List Path} : List.Forall₂ R out out' → SameAnswer R (.ok out) (.ok out')
  | error (f : Fault) : SameAnswer R (.error f) (.error f)

/-! ## The accord of explicit taint -/

namespace Accord

/-- Two runs are compared in everything but what conditions depend on. -/
def explicit (edition : Edition) (policy : List Pattern) : Accord where
  edition := edition
  policy := policy
  strict := True
  full := False
  clear := False
  name := fun _ => True
  flow := fun name _ f => ∀ p ∈ policy, p.name = name → ∀ k ∈ f.marks, k.Listed edition p
  ref := fun _ _ => True

variable {edition : Edition} {policy : List Pattern}

theorem lawful_explicit : (explicit edition policy).Lawful where
  listed := fun _ _ _ h => h
  own := fun _ _ => trivial
  kept := fun _ _ _ _ _ _ => trivial
  apart := fun h => h.elim

theorem sanitizes_explicit [SetOrder] (h : Policy.Coherent edition policy) (function : String) (line : Int) :
    (explicit edition policy).Sanitizes function line := by
  intro name s f hf hsan p hp hname k hk
  rcases Mark.mem_extend.1 hk with hk | rfl
  · exact hf p hp hname k hk
  · exact h.listed hsan hp hname line

theorem open_explicit [SetOrder] (h : Policy.Coherent edition policy) : (explicit edition policy).Open where
  names := fun _ => trivial
  raw := fun _ _ _ _ _ _ _ hk => nomatch hk
  sanitizes := sanitizes_explicit h
  faults := fun h => h

theorem tame_of_regular {m : Taint} (h : MultiLabel.Regular edition policy m) : (explicit edition policy).Tame m :=
  ⟨fun _ _ _ => .inl trivial, fun _ _ _ => trivial, fun _ _ _ => trivial, h⟩

theorem tamed_of_regular {p : Path} (h : p.Regular edition) : (explicit edition p.patterns).Tamed p where
  patterns := rfl
  sources := fun _ _ _ _ => trivial
  initialized := fun _ _ => trivial
  keys := fun _ _ _ => trivial
  labels := fun x m hm => tame_of_regular (h.labels x m hm)
  control := fun m hm => tame_of_regular (h.control m hm)
  controlKeys := fun _ _ _ => trivial
  controlLabels := fun x m hm => tame_of_regular (h.controlLabels x m hm)

/-- Paths of a run under a policy see it up to the sources that were found. -/
theorem Tamed.regular {p : Path} (h : (explicit edition policy).Tamed p) : p.Regular edition := by
  have hm : ∀ {m : Taint}, (explicit edition policy).Tame m → MultiLabel.Regular edition p.patterns m := by
    intro m hm name s f hf a ha hname k hk
    have hb : a.bare ∈ policy.map Pattern.bare := h.patterns ▸ List.mem_map_of_mem ha
    obtain ⟨b, hb, hbare⟩ := List.mem_map.1 hb
    exact listed_of_bare hbare (hm.flows name s f hf b hb ((Pattern.name_of_bare hbare).trans hname) k hk)
  exact ⟨fun x m hx => hm (h.labels x m hx), fun m hx => hm (h.control m hx),
    fun x m hx => hm (h.controlLabels x m hx)⟩

theorem forall₂_of_length {R : Taint → Taint → Prop} (hR : ∀ a b, R a b) : ∀ {l m : List Taint},
    l.length = m.length → List.Forall₂ R l m
  | [], [], _ => .nil
  | a :: _, b :: _, h => .cons (hR a b) (forall₂_of_length hR (Nat.succ.inj h))

theorem kin_of_differInControl {p q : Path} (hp : p.Regular edition) (hq : q.Regular edition)
    (h : p.DifferInControl q) : (explicit edition p.patterns).Kin p q := by
  have hrefl := Kin.refl (tamed_of_regular hp)
  have hright : (explicit edition p.patterns).Tamed q := h.patterns ▸ tamed_of_regular hq
  exact { hrefl with
    right := hright
    patterns := h.patterns ▸ hrefl.patterns
    initialized := fun x => h.initialized ▸ Iff.rfl
    labels := fun x => h.labels ▸ hrefl.labels x
    control := forall₂_of_length (fun _ _ hfull => hfull.elim) h.depth
    controlLabels := fun hfull => hfull.elim
    scope := fun _ => h.scope }

end Accord

/-! ## Independence -/

/-- The paths at the start of a program are regular. -/
theorem Path.regular_start (edition : Edition) (policy : List Pattern) : (Path.start policy).Regular edition where
  labels := fun _ _ h => nomatch h
  control := fun _ h => nomatch h
  controlLabels := fun _ _ h => nomatch h

/-- Under a coherent policy the analysis goes on with regular paths. -/
theorem Path.Regular.analyse [SetOrder] {edition : Edition} {p : Path} (hpolicy : Policy.Coherent edition p.patterns)
    (hp : p.Regular edition) (limit : Nat) (program : Stmt) {r : Report} {out : List Path}
    (h : (program.analyse edition limit [p] r).paths? = .ok out) : ∀ q ∈ out, q.Regular edition := by
  have hc := @Accord.lawful_explicit edition p.patterns
  have hrun := Accord.lockstep_analyse hc limit program ((Accord.open_explicit hpolicy).fits program) (.inl trivial)
  have hout := hrun.tamed (List.forall_mem_singleton.2 (Accord.tamed_of_regular hp)) h
  exact fun q hq => (hout q hq).regular

/-- Paths that differ in what conditions depend on give the same explicit taint, the same faults and the
same explicit reports. -/
theorem explicit_taint_independent_of_control [SetOrder] (edition : Edition) (program : Stmt) {p q : Path}
    (hpolicy : Policy.Coherent edition p.patterns) (hp : p.Regular edition) (hq : q.Regular edition)
    (h : p.DifferInControl q) {r r' : Report}
    (hr : ∀ s marks, r.Recorded s .explicit marks ↔ r'.Recorded s .explicit marks) (limit : Nat) :
    SameAnswer (Path.AgreeOutsideControl edition) (program.analyse edition limit [p] r).paths?
        (program.analyse edition limit [q] r').paths? ∧
      ∀ s marks, (program.analyse edition limit [p] r).report.Recorded s .explicit marks ↔
        (program.analyse edition limit [q] r').report.Recorded s .explicit marks := by
  have hc := @Accord.lawful_explicit edition p.patterns
  have hkin := Accord.kin_of_differInControl hp hq h
  have hrun := (Accord.lockstep_analyse hc limit program ((Accord.open_explicit hpolicy).fits program)
    (.inl trivial) [p] [q] r r' (.cons hkin .nil) (fun _ => hr)).walk
  have hedition : (Accord.explicit edition p.patterns).edition = edition := rfl
  rw [hedition] at hrun
  generalize program.analyse edition limit [p] r = x at hrun ⊢
  generalize program.analyse edition limit [q] r' = y at hrun ⊢
  obtain ⟨_, r₁, result⟩ := x
  obtain ⟨_, r₁', result'⟩ := y
  generalize Run.paths? _ = out at hrun ⊢
  generalize Run.paths? _ = out' at hrun ⊢
  cases hrun with
  | error hr => exact ⟨.error _, hr trivial⟩
  | ok hout hr =>
    exact ⟨.ok (hout.imp fun _ _ hk => ⟨hk.sameExplicit, hk.control.length_eq, hk.scope⟩), hr trivial⟩

/-- A call of a sink that has no arguments: whether it is reported depends on conditions alone. -/
def bareSink : Stmt := .eval (.call "" "sink" [] { line := 2 })

/-- A path under one condition, which depends on `m`. -/
def under (policy : List Pattern) (m : Taint) : Path := (Path.start policy).push m

/-- The sink under a condition that depends on a source, and under one that depends on nothing. -/
theorem explicit_taint_independent_of_a_tainted_condition :
    let policy : List Pattern := [
      { name := "A", sources := ["src"], sinks := ["sink"], modes := [], implicit := true }]
    let start := Path.start policy
    SameAnswer (Path.AgreeOutsideControl .scoped)
      (bareSink.analyse .scoped 1 [under policy (start.addSource start.clean "src" { line := 1 })] {}).paths?
      (bareSink.analyse .scoped 1 [under policy start.clean] {}).paths? := by
  intro policy start
  have hblank : ∀ name s f, ¬ start.clean.Has name s f := by
    rintro name s f ⟨t, ht, hf⟩
    obtain ⟨i, -, rfl, -⟩ := Path.get?_clean ht
    exact Label.holds_empty s f hf
  have hregular : ∀ m : Taint, (∀ name s f, m.Has name s f → f.marks = []) → (under policy m).Regular .scoped := by
    refine fun m hm => ⟨fun _ _ h => (nomatch h), fun m' hm' => ?_, fun _ _ h => (nomatch h)⟩
    rw [List.mem_singleton.1 hm']
    intro name s f hf p hp hname k hk
    rw [hm name s f hf] at hk
    cases hk
  refine (explicit_taint_independent_of_control .scoped bareSink ?_
    (hregular (start.addSource start.clean "src" { line := 1 }) ?_) (hregular start.clean ?_)
    ⟨rfl, rfl, rfl, rfl, rfl⟩ (fun _ _ => Iff.rfl) 1).1
  · intro _ p hp q hq _ x hx
    rw [List.mem_singleton.1 hp] at hx
    cases hx
  · intro name s f hf
    rcases MultiLabel.has_addSource.1 hf with hf | ⟨-, rfl, -⟩
    · exact absurd hf (hblank name s f)
    · rfl
  · exact fun name s f hf => absurd hf (hblank name s f)

/-- Two patterns of one name that list different sanitizers. -/
def twins : List Pattern := [
  { name := "A", sources := ["src"], sinks := ["sink"], modes := [("a", .text "show")],
    implicit := true },
  { name := "A", sources := ["src"], sinks := [], modes := [("b", .text "show")],
    implicit := true }]

/-- The taint of `b(src())` under these patterns. -/
def passedTwin : Taint :=
  ⟨.ofList [("A", {
    pattern := .own 1
    label := ⟨.ofList [("src", [{ position := { line := 1 }, marks := [.sanitizer "b" 1] }])]⟩ })]⟩

/-- With patterns of one name that list different sanitizers, a condition alone can make the analysis
fault. -/
theorem control_faults_under_twins :
    (under twins passedTwin).DifferInControl (under twins (Path.start twins).clean) ∧
      (bareSink.analyse .scoped 1 [under twins passedTwin] {}).paths? = .error (.noKey "b") ∧
      ∃ out, (bareSink.analyse .scoped 1 [under twins (Path.start twins).clean] {}).paths? = .ok out :=
  ⟨⟨rfl, rfl, rfl, rfl, rfl⟩, rfl, _, rfl⟩

end TaintFlow
