import TaintFlow.Proofs.Growth
import TaintFlow.Proofs.Reached

/-
What a path keeps on its way through a statement. Explicit labels are replaced by assignments; everything else only
grows. Variables stay assigned, patterns stay what they are and only find sources, a variable that has a label
or something that conditions left on it goes on to have one, and what conditions left on a variable stays on it.

A step of the analysis extends the path it is taken on, and so do copies and leaving a region; the statements follow,
with all rounds of their loops.
-/
namespace TaintFlow

open Listing
open Accord (LeftOn leftOn_update leftOn_mapPatterns)

namespace Labelling

theorem isSome_update {π : Type} {g : Labelling π} {x : String} (y : String) (m : MultiLabel π)
    (h : (g.get? x).isSome = true) : ((g.update y m).get? x).isSome = true := by
  by_cases he : x = y
  · subst he
    rw [get?_update_self]
    rfl
  · rw [get?_update_of_ne _ he]
    exact h

theorem isSome_mapPatterns {π ρ : Type} (k : π → ρ) (g : Labelling π) (x : String) :
    ((g.mapPatterns k).get? x).isSome = (g.get? x).isSome := by
  rw [get?_mapPatterns, Option.isSome_map]

end Labelling

/-! ## Paths that extend one another -/

namespace Path

/-- The second path goes on from the first. -/
structure Extends (N : String → Prop) (p q : Path) : Prop where
  initialized : ∀ x ∈ p.initialized, x ∈ q.initialized
  /-- The patterns are the same, in the same order, but may have found sources among the names of `N`. -/
  patterns : List.Forall₂ (Pattern.Grows N) p.patterns q.patterns
  labelled : ∀ x, (p.labels.get? x).isSome = true → (q.labels.get? x).isSome = true
  controlled : ∀ x, (p.controlLabels.get? x).isSome = true → (q.controlLabels.get? x).isSome = true
  /-- What conditions left on a variable stays on it, flow by flow. -/
  left : ∀ x name s f, LeftOn p.controlLabels x name s f → LeftOn q.controlLabels x name s f

variable {N : String → Prop} {p q r : Path}

theorem Extends.refl (p : Path) : p.Extends N p where
  initialized := fun _ h => h
  patterns := List.forall₂_same.2 fun a _ => .refl a
  labelled := fun _ h => h
  controlled := fun _ h => h
  left := fun _ _ _ _ h => h

theorem Extends.trans (h : p.Extends N q) (h' : q.Extends N r) : p.Extends N r where
  initialized := fun x hx => h'.initialized x (h.initialized x hx)
  patterns := Accord.forall₂_trans (fun _ _ _ => .trans) h.patterns h'.patterns
  labelled := fun x hx => h'.labelled x (h.labelled x hx)
  controlled := fun x hx => h'.controlled x (h.controlled x hx)
  left := fun x name s f hf => h'.left x name s f (h.left x name s f hf)

/-- Evaluating expressions extends a path; the explicit labels stay as well. -/
theorem Grows.extends (h : p.Grows N q) : p.Extends N q where
  initialized := h.initialized
  patterns := h.patterns
  labelled := fun x hx => by
    obtain ⟨m, hm⟩ := Option.isSome_iff_exists.1 hx
    rw [h.labels x m hm]
    rfl
  controlled := fun x hx => by rwa [h.controlLabels]
  left := fun x name s f hf => by rwa [h.controlLabels]

theorem extends_markInitialized (p : Path) (x : String) : p.Extends N (p.markInitialized x) :=
  { Extends.refl p with initialized := fun _ hy => mem_adjoin.2 (.inl hy) }

/-- An assignment replaces what conditions left on the variable, so the new label must hold what the old one held. -/
theorem extends_assign {x : String} {m k : Taint}
    (hk : ∀ name s f, LeftOn p.controlLabels x name s f → k.Has name s f) :
    p.Extends N { p with labels := p.labels.update x m, controlLabels := p.controlLabels.update x k } := by
  refine { Extends.refl p with
    labelled := fun y hy => Labelling.isSome_update x m hy
    controlled := fun y hy => Labelling.isSome_update x k hy
    left := fun y name s f hf => ?_ }
  rw [leftOn_update]
  split
  · rename_i he
    exact hk name s f (he ▸ hf)
  · exact hf

theorem extends_fork (p : Path) : p.Extends N p.fork :=
  { Extends.refl p with
    labelled := fun x hx => (Labelling.isSome_mapPatterns p.keep p.labels x).trans hx
    controlled := fun x hx => (Labelling.isSome_mapPatterns p.keep p.controlLabels x).trans hx
    left := fun _ _ _ _ hf => leftOn_mapPatterns.2 hf }

/-- The stack of conditions and the nesting level are no part of what is kept. -/
theorem inherited_extends (N : String → Prop) (p : Path) : Inherited (p.Extends N) where
  fork q h := h.trans q.extends_fork
  pop _ h := { h with }
  scope _ _ h := { h with }

theorem has_before [SetOrder] {x name s : String} {f : Flow} (h : LeftOn p.controlLabels x name s f) :
    (p.before x).Has name s f := by
  obtain ⟨m, hm, hf⟩ := h
  unfold before
  rw [hm]
  exact MultiLabel.has_combine.2 (.inl hf)

end Path

/-! ## Steps -/

namespace Eval

variable {edition : Edition} {N : String → Prop} {p : Path}

/-- The path of the world extends `p`. -/
def Onward (N : String → Prop) (p : Path) (w : World) : Prop := p.Extends N w.path

theorem onward_evaluate [SetOrder] {e : Expr} (he : ∀ site ∈ e.sites, ∀ x ∈ site.reads, N x) (context : Context) :
    (e.evaluate edition context).Preserves (Onward N p) := by
  intro w hw _
  have hgrows := (e.grows_evaluate edition context w).path.mono fun x ⟨site, hs, hx⟩ => he site hs x hx
  exact ⟨hw.trans hgrows.extends, fun _ _ => trivial⟩

/-- The control label that a name gets holds what conditions left on it before. -/
theorem onward_assignName [SetOrder] (spot : Spot) (m control : Taint) (name : String) :
    (assignName edition spot m control name).Preserves (Onward N p) := by
  refine .path fun w _ _ => ?_
  have hkeep : ∀ pattern s f, LeftOn w.path.controlLabels name pattern s f →
      ((w.path.before name).combine control).Has pattern s f :=
    fun _ _ _ hf => MultiLabel.has_combine.2 (.inl (Path.has_before hf))
  -- flagging leaves the path alone, so the label that is stored is made from what is on the name
  have hflag : ∀ (k : Taint) (kind : FlowKind), Secures (Onward N p) (fun v => v.path = w.path)
      (flag edition name spot k kind) fun _ v => v.path = w.path :=
    fun k kind => secures_flag (S := p.Extends N) (T := (· = w.path)) edition name spot k kind
  refine Secures.bind (Q := fun _ v => v.path = w.path) ?_ fun _ => (hflag _ .implicit).bind fun _ => .path ?_
  · rintro v hv rfl
    exact hflag m .explicit v hv rfl
  · intro v hv hpath
    refine Secures.bind (secures_setPath fun _ _ _ => ⟨hv.trans (Path.extends_assign ?_), trivial⟩) fun _ =>
      preserves_pure _
    rw [hpath]
    exact hkeep

end Eval

/-! ## Statements -/

/-- Sources are found among the variables that the allowed sites read. -/
theorem stepsUphold_extends [SetOrder] (edition : Edition) (allowed : Site → Prop) (p : Path) :
    StepsUphold edition (p.Extends (Coupling.Consulted allowed)) (fun _ => True) allowed True := by
  refine stepsUphold_of_preserves (I := Eval.Onward (Coupling.Consulted allowed) p)
    (fun _ => (and_iff_left trivial).symm) (Path.inherited_extends _ p) ?_ ?_ ?_ ?_
  · exact fun w x hw => hw.trans (w.path.extends_markInitialized x)
  · exact fun e context hs => Eval.onward_evaluate (fun site h _ hx => ⟨site, hs site h, hx⟩) context
  · exact Eval.onward_assignName
  · exact fun _ _ hw => { hw with }

/-- Every path that a statement goes on with, and every state that it reaches on the way, extends the path it was
started on: assigned variables, patterns, labelled variables and what conditions left on variables are all kept. -/
theorem analysis_extends_path [SetOrder] (edition : Edition) (limit : Nat) (s : Stmt) (p : Path) (report : Report) :
    (∀ q ∈ s.reached edition limit [p] report, p.Extends (Coupling.Consulted (· ∈ s.sites)) q) ∧
      ∀ out, (s.analyse edition limit [p] report).paths? = .ok out →
        ∀ q ∈ out, p.Extends (Coupling.Consulted (· ∈ s.sites)) q := by
  have hsteps := stepsUphold_extends edition (· ∈ s.sites) p
  obtain ⟨hreached, -, hout, -⟩ := hsteps.upholds_analyse limit s (fun _ h => h) (.inl trivial) [p] report
    (List.forall_mem_singleton.2 (.refl p)) trivial
  exact ⟨hreached, hout⟩

/-- A loop over a branch that assigns `x` again and again, from a path on which a condition left something on `x`. On
all paths but the one that skips the loop, `c` and `t` were found to be sources. -/
theorem analysis_of_reassignments_extends_path :
    let a : Pattern := { name := "A", sources := ["get"], sinks := ["sink"], modes := [], implicit := true }
    let m : Taint := (Path.start [a]).addSource (Path.start [a]).clean "get" { line := 1 }
    let p : Path := { (Path.start [a]).markInitialized "x" with
      labels := Labelling.update {} "x" m, controlLabels := Labelling.update {} "x" m }
    let s : Stmt := .loop (.name "c" { line := 2 })
      (.block [.branch (.name "t" { line := 3 }) (.block [.assign [.name "x"] .inert { line := 4 }]) (.block [])])
      (.block [])
    ∃ out, (s.analyse .plain 5 [p] {}).paths? = .ok out ∧
      (out.map fun q => q.patterns.map (·.sources)) = List.replicate 6 [["get", "c", "t"]] ++ [[["get"]]] ∧
      ∀ q ∈ out, p.Extends (Coupling.Consulted (· ∈ s.sites)) q := by
  intro a m p s
  have hsources : ((s.analyse .plain 5 [p] {}).paths?.toOption.map fun out => out.map fun q =>
      q.patterns.map (·.sources)) = some (List.replicate 6 [["get", "c", "t"]] ++ [[["get"]]]) := by
    decide +kernel
  cases hout : (s.analyse .plain 5 [p] {}).paths? with
  | error fault =>
    rw [hout] at hsources
    cases hsources
  | ok out =>
    rw [hout] at hsources
    exact ⟨out, rfl, Option.some.inj hsources, (analysis_extends_path .plain 5 s p {}).2 out hout⟩

end TaintFlow
