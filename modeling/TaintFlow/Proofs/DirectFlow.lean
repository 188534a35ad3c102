import TaintFlow.Proofs.Detection
import TaintFlow.Proofs.Growth

/-
Direct flows are reported. A variable that is read somewhere inside the arguments of a call to a sink,
and that is a source or was never assigned, gives a finding for the place where it is read and the place
of the call. The finding has an explicit flow that carries the calls on the way from the variable up to
the sink that sanitize it, and nothing else.

An evaluation without a fault evaluates every part of the expression, each from a world that has grown;
the flow of the variable is followed from part to whole.
-/
namespace TaintFlow

open Listing

/-! ## Parts of expressions -/

namespace Expr

/-- The parts of an expression that is no call: the base of an attribute, the container and the index
of a subscript, operands, values and comparators. -/
def operands : Expr → List Expr
  | .attribute base _ _ => [base]
  | .subscript container index _ => [container, index]
  | .binary left right => [left, right]
  | .compare left rest => left :: rest
  | .unary operand => [operand]
  | .boolean values => values
  | .name _ _ | .call _ _ _ _ | .inert | .missing | .fails _ => []

/-- The second expression is reached in the first through operands and arguments. -/
inductive Reaches : Expr → Expr → Prop where
  | self (e : Expr) : Reaches e e
  | operand {e child part : Expr} : child ∈ e.operands → Reaches child part → Reaches e part
  | argument {receiver function : String} {args : List Expr} {spot : Spot} {arg part : Expr} :
    arg ∈ args → Reaches arg part → Reaches (.call receiver function args spot) part

/-- The variable `x` is read at `spot` in the expression, and the marks are those of the calls around it
that sanitize it for the pattern. -/
inductive Carries (q : Pattern) (x : String) (spot : Spot) : Expr → List Mark → Prop where
  | name : Carries q x spot (.name x spot) []
  | operand {e child : Expr} {marks : List Mark} : child ∈ e.operands → Carries q x spot child marks →
    Carries q x spot e marks
  | argument {receiver function : String} {args : List Expr} {at_ : Spot} {arg : Expr} {marks : List Mark} :
    arg ∈ args → Carries q x spot arg marks →
    Carries q x spot (.call receiver function args at_)
      (if q.isSanitizer function then .sanitizer function at_.line :: marks else marks)

end Expr

/-! ## Evaluations without a fault -/

theorem Eval.bind_ok {α β : Type} {x : Eval α} {f : α → Eval β} {w v : World} {b : β}
    (h : (x >>= f).run w = (.ok b, v)) : ∃ a u, x.run w = (.ok a, u) ∧ (f a).run u = (.ok b, v) := by
  rw [Eval.run_bind] at h
  generalize x.run w = r at h ⊢
  obtain ⟨r, u⟩ := r
  cases r with
  | error f => cases h
  | ok a => exact ⟨a, u, rfl, h⟩

theorem Eval.exists_ok {α : Type} {x : Eval α} {w : World} (h : (x.run w).1.isOk = true) :
    ∃ a v, x.run w = (.ok a, v) := by
  generalize x.run w = r at h ⊢
  obtain ⟨r, v⟩ := r
  cases r with
  | error f => cases h
  | ok a => exact ⟨a, v, rfl⟩

/-- The world may have grown. -/
abbrev World.Later : World → World → Prop := World.Grows fun _ => True

theorem Expr.later_evaluate [SetOrder] {edition : Edition} {e : Expr} {context : Context} {w v : World}
    {r : Except Fault Taint} (h : (e.evaluate edition context).run w = (r, v)) : w.Later v := by
  have hgrows := e.grows_evaluate edition context w
  rw [h] at hgrows
  exact hgrows.mono fun _ _ => trivial

/-- Between two worlds the expression was evaluated, and its flows are among those of `m`. -/
def Expr.Evaluated [SetOrder] (edition : Edition) (context : Context) (e : Expr) (w v : World) (m : Taint) : Prop :=
  ∃ u m' u', w.Later u ∧ (e.evaluate edition context).run u = (.ok m', u') ∧ u'.Later v ∧
    ∀ name s f, m'.Has name s f → m.Has name s f

namespace Expr

variable {edition : Edition} {context : Context}

theorem evaluated_self [SetOrder] {e : Expr} {w v : World} {m : Taint}
    (h : (e.evaluate edition context).run w = (.ok m, v)) :
    e.Evaluated edition context w v m :=
  ⟨w, m, v, .refl w, h, .refl v, fun _ _ _ hf => hf⟩

theorem Evaluated.mono [SetOrder] {e : Expr} {w w' v v' : World} {m m' : Taint} (h : e.Evaluated edition context w v m)
    (hw : w'.Later w) (hv : v.Later v') (hm : ∀ name s f, m.Has name s f → m'.Has name s f) :
    e.Evaluated edition context w' v' m' := by
  obtain ⟨u, n, u', hu, hrun, hu', hn⟩ := h
  exact ⟨u, n, u', hw.trans hu, hrun, hu'.trans hv, fun name s f hf => hm name s f (hn name s f hf)⟩

theorem has_combine_left [SetOrder] {a b : Taint} (name s : String) (f : Flow) (h : a.Has name s f) :
    (a.combine b).Has name s f :=
  MultiLabel.has_combine.2 (.inl h)

theorem has_combine_right [SetOrder] {a b : Taint} (name s : String) (f : Flow) (h : b.Has name s f) :
    (a.combine b).Has name s f :=
  MultiLabel.has_combine.2 (.inr h)

theorem evaluateAll_ok [SetOrder] : ∀ {operands : List Expr} {m m' : Taint} {w v : World},
    (Expr.evaluateAll edition context operands m).run w = (.ok m', v) →
    w.Later v ∧ (∀ name s f, m.Has name s f → m'.Has name s f) ∧
      ∀ e ∈ operands, e.Evaluated edition context w v m'
  | [], m, m', w, v, h => by
    rw [Expr.evaluateAll.eq_def] at h
    cases h
    exact ⟨.refl w, fun _ _ _ hf => hf, List.forall_mem_nil _⟩
  | e :: rest, m, m', w, v, h => by
    rw [Expr.evaluateAll.eq_def] at h
    obtain ⟨a, u, he, h⟩ := Eval.bind_ok h
    obtain ⟨hl, hm, hrest⟩ := evaluateAll_ok h
    have hwu := later_evaluate he
    refine ⟨hwu.trans hl, fun name s f hf => hm name s f (has_combine_left name s f hf), ?_⟩
    rw [List.forall_mem_cons]
    refine ⟨(evaluated_self he).mono (.refl w) hl fun name s f hf => hm name s f (has_combine_right name s f hf), ?_⟩
    exact fun e' he' => (hrest e' he').mono hwu (.refl v) fun _ _ _ hf => hf

theorem has_addKnownSource (edition : Edition) (p : Path) {m : Taint} (x : String) (spot : Spot) {name s : String}
    {f : Flow} (h : m.Has name s f) : (p.addKnownSource edition m x spot).Has name s f := by
  unfold Path.addKnownSource
  split
  · exact MultiLabel.has_addSource.2 (.inl h)
  · exact h

theorem readAttribute_ok [SetOrder] {m m' : Taint} {attr : String} {spot : Spot} {w v : World}
    (h : (Eval.readAttribute edition m attr spot).run w = (.ok m', v)) :
    v = w ∧ ∀ name s f, m.Has name s f → m'.Has name s f := by
  rw [Eval.run_readAttribute] at h
  cases h
  refine ⟨rfl, fun name s f hf => ?_⟩
  have hf := has_addKnownSource edition w.path attr spot hf
  cases w.path.labels.get? attr with
  | none => exact hf
  | some l => exact has_combine_left name s f hf

theorem later_flag [SetOrder] {sink : String} {spot : Spot} {m : Taint} {kind : FlowKind} {w v : World}
    {r : Except Fault Unit} (h : (Eval.flag edition sink spot m kind).run w = (r, v)) : w.Later v := by
  have hgrows := Eval.grows_flag (N := fun _ => True) edition sink spot m kind w
  rw [h] at hgrows
  exact hgrows

theorem flagContainer_ok [SetOrder] {container : Expr} {spot : Spot} {m : Taint} {w v : World}
    (h : (Eval.flagContainer edition container spot m).run w = (.ok (), v)) : w.Later v := by
  unfold Eval.flagContainer at h
  split at h
  · exact later_flag h
  · cases h
  · cases h
    exact .refl w

/-- An evaluation without a fault evaluates the operands in its own context, and has their flows. -/
theorem evaluated_operand [SetOrder] : ∀ {e child : Expr} {w v : World} {m : Taint}, child ∈ e.operands →
    (e.evaluate edition context).run w = (.ok m, v) → child.Evaluated edition context w v m
  | .attribute base attr spot, child, w, v, m, hc, h => by
    rw [List.mem_singleton.1 hc]
    rw [Expr.evaluate.eq_def] at h
    obtain ⟨_, _, ho, h⟩ := Eval.bind_ok h
    cases ho
    obtain ⟨a, u, hb, h⟩ := Eval.bind_ok h
    split at h
    · obtain ⟨rfl, hm⟩ := readAttribute_ok h
      exact (evaluated_self hb).mono (.refl w) (.refl _) fun name s f hf => hm name s f (has_combine_right name s f hf)
    · cases h
      exact (evaluated_self hb).mono (.refl w) (.refl _) has_combine_right
  | .subscript container index spot, child, w, v, m, hc, h => by
    rw [Expr.evaluate.eq_def] at h
    obtain ⟨_, _, ho, h⟩ := Eval.bind_ok h
    cases ho
    obtain ⟨a, u, ha, h⟩ := Eval.bind_ok h
    obtain ⟨b, u', hb, h⟩ := Eval.bind_ok h
    have hlast : u'.Later v ∧ m = (w.path.clean.combine a).combine b := by
      split at h
      · obtain ⟨_, _, hflag, h⟩ := Eval.bind_ok h
        cases h
        exact ⟨flagContainer_ok hflag, rfl⟩
      · cases h
        exact ⟨.refl _, rfl⟩
    obtain ⟨hlast, rfl⟩ := hlast
    have hwu := later_evaluate ha
    have huu := later_evaluate hb
    rcases List.mem_cons.1 hc with rfl | hc
    · exact (evaluated_self ha).mono (.refl w) (huu.trans hlast) fun name s f hf =>
        has_combine_left name s f (has_combine_right name s f hf)
    · rw [List.mem_singleton.1 hc]
      exact (evaluated_self hb).mono hwu hlast has_combine_right
  | .binary left right, child, w, v, m, hc, h => by
    rw [Expr.evaluate.eq_def] at h
    obtain ⟨_, _, ho, h⟩ := Eval.bind_ok h
    cases ho
    obtain ⟨a, u, ha, h⟩ := Eval.bind_ok h
    obtain ⟨b, u', hb, h⟩ := Eval.bind_ok h
    cases h
    rcases List.mem_cons.1 hc with rfl | hc
    · exact (evaluated_self ha).mono (.refl w) (later_evaluate hb) fun name s f hf =>
        has_combine_left name s f (has_combine_right name s f hf)
    · rw [List.mem_singleton.1 hc]
      exact (evaluated_self hb).mono (later_evaluate ha) (.refl _) has_combine_right
  | .compare left rest, child, w, v, m, hc, h => by
    rw [Expr.evaluate.eq_def] at h
    obtain ⟨a, u, ha, h⟩ := Eval.bind_ok h
    obtain ⟨hl, hm, hrest⟩ := evaluateAll_ok h
    rcases List.mem_cons.1 hc with rfl | hc
    · exact (evaluated_self ha).mono (.refl w) hl hm
    · exact (hrest child hc).mono (later_evaluate ha) (.refl v) fun _ _ _ hf => hf
  | .unary operand, child, w, v, m, hc, h => by
    rw [List.mem_singleton.1 hc]
    rw [Expr.evaluate.eq_def] at h
    exact evaluated_self h
  | .boolean values, child, w, v, m, hc, h => by
    rw [Expr.evaluate.eq_def] at h
    obtain ⟨_, _, ho, h⟩ := Eval.bind_ok h
    cases ho
    exact (evaluateAll_ok h).2.2 child hc

theorem evaluateArgs_ok [SetOrder] {c : Accord} : ∀ {args : List Expr} {m k m' k' : Taint} {w v : World},
    (Expr.evaluateArgs edition args m k).run w = (.ok (m', k'), v) → c.Fresh m →
    w.Later v ∧ c.Fresh m' ∧ (∀ name s f, m.Has name s f → m'.Has name s f) ∧
      ∀ e ∈ args, e.Evaluated edition .value w v m'
  | [], m, k, m', k', w, v, h, hm => by
    rw [Expr.evaluateArgs.eq_def] at h
    cases h
    exact ⟨.refl w, hm, fun _ _ _ hf => hf, List.forall_mem_nil _⟩
  | e :: rest, m, k, m', k', w, v, h, hm => by
    rw [Expr.evaluateArgs.eq_def] at h
    obtain ⟨a, u, ha, h⟩ := Eval.bind_ok h
    obtain ⟨b, u', hb, h⟩ := Eval.bind_ok h
    obtain ⟨hl, hfresh, hhas, hrest⟩ := evaluateArgs_ok h (hm.combine a)
    have hwu := later_evaluate ha
    have huu := later_evaluate hb
    refine ⟨hwu.trans (huu.trans hl), hfresh, fun name s f hf => hhas name s f (has_combine_left name s f hf), ?_⟩
    rw [List.forall_mem_cons]
    constructor
    · exact (evaluated_self ha).mono (.refl w) (huu.trans hl) fun name s f hf =>
        hhas name s f (has_combine_right name s f hf)
    · exact fun e' he' => (hrest e' he').mono (hwu.trans huu) (.refl v) fun _ _ _ hf => hf

/-- The receiver of a call brings in a label for the path's own patterns. -/
theorem readReceiver_ok {policy : List Pattern} {receiver : String} {spot : Spot} {w v : World} {m : Taint}
    (hw : w.path.patterns.map Pattern.bare = policy.map Pattern.bare)
    (h : (Eval.readReceiver edition receiver spot).run w = (.ok m, v)) :
    w.Later v ∧ (Accord.lax edition policy).Fresh m := by
  have hclean : ∀ {p : Path}, p.patterns.map Pattern.bare = policy.map Pattern.bare →
      (Accord.lax edition policy).Fresh p.clean := by
    intro p hp
    rw [Path.clean_eq (q := Path.start policy) hp]
    exact Accord.fresh_blank
  unfold Eval.readReceiver at h
  rw [Eval.run_path_bind] at h
  split at h
  · cases h
    have hgrows := Path.grows_discover (N := fun _ => True) (x := receiver) trivial w.path
    exact ⟨⟨hgrows, fun _ _ _ hr => hr⟩, (hclean (hgrows.map_bare.trans hw)).addSource _ _ _⟩
  · cases h
    exact ⟨.refl w, hclean hw⟩

/-- A call without a fault evaluates its arguments as values, and then applies its function to a label
that has their flows. -/
theorem call_ok [SetOrder] {receiver function : String} {args : List Expr} {spot : Spot} {w v : World} {m : Taint}
    (h : ((Expr.call receiver function args spot).evaluate edition context).run w = (.ok m, v)) :
    ∃ u m' k n l, w.Later u ∧ (Accord.lax edition w.path.patterns).Fresh m' ∧
      (∀ e ∈ args, e.Evaluated edition .value w u m') ∧
      (Eval.applyFunction edition function spot m' k).run u = (.ok (n, l), v) ∧
      m = if context = .control then l else n := by
  rw [Expr.evaluate.eq_def] at h
  obtain ⟨a, w₁, hr, h⟩ := Eval.bind_ok h
  obtain ⟨_, _, ho, h⟩ := Eval.bind_ok h
  cases ho
  obtain ⟨⟨m', k⟩, u, hargs, h⟩ := Eval.bind_ok h
  obtain ⟨⟨n, l⟩, v', happ, h⟩ := Eval.bind_ok h
  cases h
  obtain ⟨hw₁, ha⟩ := readReceiver_ok rfl hr
  obtain ⟨hu, hfresh, -, hparts⟩ := evaluateArgs_ok hargs ha
  exact ⟨u, m', k, n, l, hw₁.trans hu, hfresh,
    fun e he => (hparts e he).mono hw₁ (.refl u) fun _ _ _ hf => hf, happ, rfl⟩

theorem applyFunction_ok [SetOrder] {function : String} {spot : Spot} {m k n l : Taint} {w v : World}
    (h : (Eval.applyFunction edition function spot m k).run w = (.ok (n, l), v)) :
    n = w.path.sanitize (w.path.addKnownSource edition m function spot) function spot.line ∧
      ∃ u, (Eval.flag edition function spot n .explicit).run w = (.ok (), u) ∧ w.Later u ∧ u.Later v := by
  rw [Eval.run_applyFunction] at h
  obtain ⟨_, u, hf, h⟩ := Eval.bind_ok h
  obtain ⟨_, u', hg, h⟩ := Eval.bind_ok h
  cases h
  exact ⟨rfl, u, hf, later_flag hf, later_flag hg⟩

end Expr

/-! ## The flow of one variable -/

/-- A world in which reading `x` brings in a flow for the pattern `q`, which stands at place `i`. -/
structure World.Awaits (w : World) (q : Pattern) (i : Nat) (x : String) (scope : Int) : Prop where
  names : (w.path.patterns.map (·.name)).Nodup
  index : i < w.path.patterns.length
  bare : (w.path.view (.own i)).bare = q.bare
  scope : w.path.scope = scope
  live : x ∉ w.path.initialized ∨ x ∈ (w.path.view (.own i)).sources

namespace World

variable {q : Pattern} {i : Nat} {x : String} {scope : Int}

theorem Awaits.name {w : World} (h : w.Awaits q i x scope) : (w.path.view (.own i)).name = q.name :=
  Pattern.name_of_bare h.bare

theorem Awaits.only {w : World} (h : w.Awaits q i x scope) :
    w.path.named (w.path.view (.own i)).name = [w.path.view (.own i)] :=
  Path.named_of_nodup h.names (Path.view_own_mem h.index)

theorem Awaits.last {w : World} (h : w.Awaits q i x scope) :
    (w.path.named (w.path.view (.own i)).name).getLast? = some (w.path.view (.own i)) := by
  rw [h.only, List.getLast?_singleton]

/-- A name that counts as assigned only because it was read has become a source. -/
theorem Awaits.later {w v : World} (h : w.Awaits q i x scope) (hv : w.Later v) : v.Awaits q i x scope := by
  have hbare := hv.path.map_bare
  have hname : v.path.patterns.map (·.name) = w.path.patterns.map (·.name) := by
    have hmap := congrArg (List.map Pattern.name) hbare
    rw [List.map_map, List.map_map] at hmap
    exact hmap
  have hlen : v.path.patterns.length = w.path.patterns.length := by simpa using congrArg List.length hbare
  have hi : i < v.path.patterns.length := hlen ▸ h.index
  refine ⟨hname ▸ h.names, hi, (hv.path.view_own i).bare.symm.trans h.bare, hv.path.scope.trans h.scope, ?_⟩
  rcases h.live with hx | hx
  · by_cases hx' : x ∈ v.path.initialized
    · rcases hv.path.found x hx' with hx' | ⟨-, hs⟩
      · exact absurd hx' hx
      · exact .inr (hs _ (Path.view_own_mem hi))
    · exact .inl hx'
  · exact .inr ((hv.path.view_own i).sources x hx)

end World

/-- The label has the flow of `x`, read at `spot`, with these marks. -/
def MultiLabel.Brings (edition : Edition) (m : Taint) (q : Pattern) (x : String) (spot : Spot) (scope : Int)
    (marks : List Mark) : Prop :=
  ∃ f, m.Has q.name x f ∧ f.position = edition.place spot scope ∧ ∀ k, k ∈ f.marks ↔ k ∈ marks

namespace Expr

variable {edition : Edition} {q : Pattern} {i : Nat} {x : String} {spot : Spot} {scope : Int}

/-- Once `x` is a source, its flow is added to the label without flows. -/
theorem brings_addSource (edition : Edition) (spot : Spot) {w : World} (hw : w.Awaits q i x scope)
    (hx : x ∈ (w.path.view (.own i)).sources) :
    (w.path.addSource w.path.clean x (edition.place spot w.path.scope)).Brings edition q x spot scope [] := by
  have hfresh : (Accord.lax edition w.path.patterns).Fresh w.path.clean := Accord.fresh_blank
  obtain ⟨t, ht, hp⟩ := hfresh.tracks rfl hw.last
  refine ⟨_, MultiLabel.has_addSource.2 (.inr ⟨rfl, rfl, t, hw.name ▸ ht, ?_⟩), by rw [hw.scope], by simp⟩
  rw [hp]
  exact decide_eq_true hx

theorem brings_readName [SetOrder] {w v : World} {m : Taint} (hw : w.Awaits q i x scope)
    (h : (Eval.readName edition x spot .value).run w = (.ok m, v)) :
    m.Brings edition q x spot scope [] ∧ x ∈ (v.path.view (.own i)).sources := by
  unfold Eval.readName at h
  rw [Eval.run_path_bind] at h
  by_cases hi : x ∈ w.path.initialized
  · have hx := hw.live.resolve_left (not_not_intro hi)
    have hknown : w.path.knowsSource x = true :=
      List.any_eq_true.2 ⟨_, Path.view_own_mem hw.index, decide_eq_true hx⟩
    rw [if_neg (not_not_intro hi), if_neg (by simp), Eval.run_readAssigned] at h
    obtain ⟨f, hf, hrest⟩ := brings_addSource edition spot hw hx
    cases h
    constructor
    · unfold Path.addKnownSource
      rw [if_pos hknown]
      exact ⟨f, has_combine_left _ _ _ hf, hrest⟩
    · split
      · exact hx
      · exact hx
  · rw [if_pos hi] at h
    have hlater : w.Later { w with path := (w.path.discover x).markInitialized x } :=
      ⟨Path.grows_discover trivial w.path, fun _ _ _ hr => hr⟩
    have hw' := hw.later hlater
    have hx : x ∈ (((w.path.discover x).markInitialized x).view (.own i)).sources := by
      obtain ⟨b, -, hb⟩ := List.mem_map.1 (Path.view_own_mem hw'.index)
      rw [← hb]
      exact mem_adjoin.2 (.inr rfl)
    cases h
    exact ⟨brings_addSource edition spot hw' hx, hx⟩

/-- A call passes the flow on, with its own mark if it sanitizes it. -/
theorem brings_applyFunction [SetOrder] (function : String) (at_ : Spot) {w : World} {m : Taint} {marks : List Mark}
    {policy : List Pattern} (hw : w.Awaits q i x scope)
    (hp : w.path.patterns.map Pattern.bare = policy.map Pattern.bare)
    (hfresh : (Accord.lax edition policy).Fresh m) (hm : m.Brings edition q x spot scope marks) :
    (w.path.sanitize (w.path.addKnownSource edition m function at_) function at_.line).Brings edition q x spot scope
      (if q.isSanitizer function then .sanitizer function at_.line :: marks else marks) := by
  obtain ⟨f, hf, hpos, hmarks⟩ := hm
  have hf := has_addKnownSource edition w.path function at_ hf
  have hfresh' : (Accord.lax edition policy).Fresh (w.path.addKnownSource edition m function at_) := by
    unfold Path.addKnownSource
    split
    · exact hfresh.addSource _ _ _
    · exact hfresh
  generalize w.path.addKnownSource edition m function at_ = n at hf hfresh'
  -- the label follows the path's own pattern, whose sanitizers are those of `q`
  obtain ⟨t, ht, hown⟩ := hfresh'.tracks hp hw.last
  rw [hw.name] at ht
  have hsan : (w.path.view t.pattern).isSanitizer function = q.isSanitizer function := by
    rw [hown]
    exact Pattern.isSanitizer_of_bare hw.bare function
  obtain ⟨u, hu, hholds⟩ := hf
  rw [ht] at hu
  cases hu
  unfold Path.sanitize
  by_cases hq : q.isSanitizer function = true
  · have hknows : w.path.knowsSanitizer function = true :=
      List.any_eq_true.2 ⟨_, Path.view_own_mem hw.index, by rw [Pattern.isSanitizer_of_bare hw.bare, hq]⟩
    rw [if_pos hknows, if_pos hq]
    refine ⟨f.sanitize (.sanitizer function at_.line), ?_, hpos, fun k => ?_⟩
    · refine MultiLabel.has_addSanitizer.2 ⟨t, ht, f, hholds, ?_⟩
      rw [hsan, if_pos hq]
    · show k ∈ Mark.extend f.marks _ ↔ _
      rw [Mark.mem_extend, hmarks, List.mem_cons, or_comm]
  · rw [if_neg hq]
    split
    · refine ⟨f, MultiLabel.has_addSanitizer.2 ⟨t, ht, f, hholds, ?_⟩, hpos, hmarks⟩
      rw [hsan, if_neg hq]
    · exact ⟨f, ⟨t, ht, hholds⟩, hpos, hmarks⟩

/-- The flow of a variable is in the label of every expression around it, which makes it a source. -/
theorem Carries.brings [SetOrder] {e : Expr} {marks : List Mark} (h : e.Carries q x spot marks) :
    ∀ {w v : World} {m : Taint}, w.Awaits q i x scope → (e.evaluate edition .value).run w = (.ok m, v) →
    m.Brings edition q x spot scope marks ∧ x ∈ (v.path.view (.own i)).sources := by
  induction h with
  | name =>
    intro w v m hw hrun
    rw [Expr.evaluate.eq_def] at hrun
    exact brings_readName hw hrun
  | operand hc _ ih =>
    intro w v m hw hrun
    obtain ⟨u, n, u', hu, hrun, hu', hn⟩ := evaluated_operand hc hrun
    obtain ⟨⟨f, hf, hrest⟩, hx⟩ := ih (hw.later hu) hrun
    exact ⟨⟨f, hn _ _ _ hf, hrest⟩, (hu'.path.view_own i).sources x hx⟩
  | argument ha _ ih =>
    intro w v m hw hrun
    obtain ⟨w', m', k, n, l, hw', hfresh, hargs, happ, rfl⟩ := call_ok hrun
    obtain ⟨u, n', u', hu, hrun, hu', hn⟩ := hargs _ ha
    obtain ⟨⟨f, hf, hrest⟩, hx⟩ := ih (hw.later hu) hrun
    obtain ⟨rfl, v', -, hflag, hv'⟩ := applyFunction_ok happ
    exact ⟨brings_applyFunction _ _ (hw.later hw') hw'.path.map_bare hfresh ⟨f, hn _ _ _ hf, hrest⟩,
      ((hu'.trans (hflag.trans hv')).path.view_own i).sources x hx⟩

/-- What is reached in an expression is evaluated with it, though in a context of its own. -/
theorem Reaches.evaluated [SetOrder] {e part : Expr} (h : e.Reaches part) :
    ∀ {context : Context} {w v : World} {m : Taint}, (e.evaluate edition context).run w = (.ok m, v) →
    ∃ context' u n u', w.Later u ∧ (part.evaluate edition context').run u = (.ok n, u') ∧ u'.Later v := by
  induction h with
  | self e => exact fun {context w v m} hrun => ⟨context, w, m, v, .refl w, hrun, .refl v⟩
  | operand hc _ ih =>
    intro context w v m hrun
    obtain ⟨u, n, u', hu, hrun, hu', -⟩ := evaluated_operand hc hrun
    obtain ⟨context', s, k, s', hs, hrun, hs'⟩ := ih hrun
    exact ⟨context', s, k, s', hu.trans hs, hrun, hs'.trans hu'⟩
  | argument ha _ ih =>
    intro context w v m hrun
    obtain ⟨w', m', k, n, l, hw', -, hargs, happ, -⟩ := call_ok hrun
    obtain ⟨u, n', u', hu, hrun, hu', -⟩ := hargs _ ha
    obtain ⟨-, v', -, hflag, hv'⟩ := applyFunction_ok happ
    obtain ⟨context', s, k, s', hs, hrun, hs'⟩ := ih hrun
    exact ⟨context', s, k, s', hu.trans hs, hrun, hs'.trans (hu'.trans (hflag.trans hv'))⟩

end Expr

/-! ## What is reported -/

/-- A flow that reaches a sink is recorded under the only pattern of its name. -/
theorem Eval.recorded_flag [SetOrder] {edition : Edition} {sink : String} {spot : Spot} {m : Taint} {w v : World}
    {a : Pattern} {s : String} {f : Flow} {marks : List Mark}
    (h : (flag edition sink spot m .explicit).run w = (.ok (), v)) (ha : w.path.named a.name = [a])
    (hsink : a.isSink sink = true) (hs : a.isSource s = true) (hf : m.Has a.name s f)
    (hmarks : Report.imprint edition a f.marks = .ok (some marks)) :
    v.report.Recorded ⟨a.name, s, f.position, sink, edition.place spot w.path.scope⟩ .explicit marks := by
  obtain ⟨l, hl⟩ := Option.isSome_iff_exists.1 (Policy.offence_isSome.2 ⟨hsink, s, f, hs, hf⟩)
  have hfound := w.path.view_get?_detect sink m a.name
  rw [ha, List.filterMap_cons, hl] at hfound
  obtain ⟨t, ht, hview⟩ := Option.map_eq_some_iff.1 hfound
  obtain ⟨rfl, rfl⟩ := Prod.mk.inj hview
  rw [run_flag] at h
  split at h
  · rename_i he
    rw [Table.isEmpty_iff.1 he] at ht
    cases ht
  · obtain ⟨hok, rfl⟩ := Prod.mk.inj h
    refine Report.files_add.all w.report ?_ _ _ _ ⟨_, t, ht, rfl, by simp, rfl, rfl, rfl, f, ?_, rfl, hmarks⟩
    · split at hok
      · assumption
      · cases hok
    · exact (Policy.holds_offence hl).2 ⟨hs, hf⟩

/-- A pattern that shows all its sanitizers records all marks. -/
theorem Report.imprint_of_shown [SetOrder] {edition : Edition} {q : Pattern} {path : List Mark}
    (hshow : edition = .scoped → ∀ g, q.isSanitizer g = true → q.shows? g = some true)
    (h : ∀ k ∈ path, ∃ g line, k = .sanitizer g line ∧ q.isSanitizer g = true) :
    ∃ marks, imprint edition q path = .ok (some marks) ∧ ∀ k, k ∈ marks ↔ k ∈ path := by
  have hlisted : ∀ k ∈ path, k.Listed edition q := by
    intro k hk
    obtain ⟨g, line, rfl, hg⟩ := h k hk
    exact ⟨g, line, rfl, fun he => by rw [hshow he g hg]; rfl⟩
  simp only [imprint_of_listed hlisted]
  cases edition
  · exact ⟨_, rfl, fun _ => mem_distinct⟩
  · have hdisplays : ∀ k ∈ path, q.displays k = true := by
      intro k hk
      obtain ⟨g, line, rfl, hg⟩ := h k hk
      exact decide_eq_true (hshow rfl g hg)
    exact Pattern.display_of_shown hdisplays .scoped

theorem Expr.Carries.isSanitizer {q : Pattern} {x : String} {spot : Spot} {e : Expr} {marks : List Mark}
    (h : e.Carries q x spot marks) : ∀ k ∈ marks, ∃ g line, k = .sanitizer g line ∧ q.isSanitizer g = true := by
  induction h with
  | name => exact List.forall_mem_nil _
  | operand _ _ ih => exact ih
  | argument _ _ ih =>
    split
    · rename_i hg
      exact List.forall_mem_cons.2 ⟨⟨_, _, rfl, hg⟩, ih⟩
    · exact ih

/-- A call to a sink reports the flow of a source in its arguments. -/
theorem Expr.recorded_call [SetOrder] {edition : Edition} {context : Context} {w v : World} {m : Taint} {q : Pattern}
    {i : Nat} {receiver sink x : String} {args : List Expr} {at_ spot : Spot} {scope : Int} {path : List Mark}
    (hw : w.Awaits q i x scope) (hsink : q.isSink sink = true)
    (hshow : edition = .scoped → ∀ g, q.isSanitizer g = true → q.shows? g = some true)
    (hx : (Expr.call receiver sink args at_).Carries q x spot path)
    (hrun : ((Expr.call receiver sink args at_).evaluate edition context).run w = (.ok m, v)) :
    ∃ marks, v.report.Recorded ⟨q.name, x, edition.place spot scope, sink, edition.place at_ scope⟩ .explicit marks ∧
      ∀ k, k ∈ marks ↔ k ∈ path := by
  have hpath := hx.isSanitizer
  cases hx with
  | operand hc _ => exact absurd hc List.not_mem_nil
  | argument ha hx =>
    obtain ⟨w', m', k, n, l, hw', hfresh, hargs, happ, -⟩ := call_ok hrun
    obtain ⟨u, n', u', hu, hrun, hu', hn⟩ := hargs _ ha
    obtain ⟨⟨f, hf, hrest⟩, hs⟩ := hx.brings (hw.later hu) hrun
    obtain ⟨rfl, v', hflag, -, hv'⟩ := applyFunction_ok happ
    have hw := hw.later hw'
    obtain ⟨f, hf, hpos, hmarks⟩ := brings_applyFunction sink at_ hw hw'.path.map_bare hfresh
      ⟨f, hn _ _ _ hf, hrest⟩
    -- at the sink the pattern has `x` as a source, and shows what `q` shows
    obtain ⟨marks, himprint, hshown⟩ := Report.imprint_of_shown (q := w'.path.view (.own i))
      (fun he g hg => by
        rw [Pattern.shows?_of_bare hw.bare]
        exact hshow he g (Pattern.isSanitizer_of_bare hw.bare g ▸ hg))
      (fun k hk => by
        obtain ⟨g, line, rfl, hg⟩ := hpath k ((hmarks k).1 hk)
        exact ⟨g, line, rfl, (Pattern.isSanitizer_of_bare hw.bare g).trans hg⟩)
    have hrec := Eval.recorded_flag hflag hw.only ((Pattern.isSink_of_bare hw.bare sink).trans hsink)
      (decide_eq_true ((hu'.path.view_own i).sources x hs)) (hw.name ▸ hf) himprint
    rw [hw.name, hpos, hw.scope] at hrec
    exact ⟨marks, hv'.report _ _ _ hrec, fun k => (hshown k).trans (hmarks k)⟩

/-- A source inside the arguments of a call to a sink is reported, with the sanitizers on the way up. -/
theorem direct_flow_reported [SetOrder] {edition : Edition} {context : Context} {e : Expr} {p : Path} {r : Report}
    {m : Taint} {w : World} {q : Pattern} {receiver sink x : String} {args : List Expr} {at_ spot : Spot}
    {path : List Mark} (hnames : (p.patterns.map (·.name)).Nodup)
    (hrun : (e.evaluate edition context).run ⟨p, r⟩ = (.ok m, w))
    (hcall : e.Reaches (.call receiver sink args at_))
    (hq : q ∈ p.patterns) (hsink : q.isSink sink = true)
    (hshow : edition = .scoped → ∀ g, q.isSanitizer g = true → q.shows? g = some true)
    (hx : (Expr.call receiver sink args at_).Carries q x spot path)
    (hlive : x ∉ p.initialized ∨ q.isSource x = true) :
    ∃ marks, w.report.Recorded
      ⟨q.name, x, edition.place spot p.scope, sink, edition.place at_ p.scope⟩ .explicit marks ∧
      ∀ k, k ∈ marks ↔ k ∈ path := by
  obtain ⟨i, hi, rfl⟩ := List.mem_iff_getElem.1 hq
  have hown := Path.view_own hi
  have hawaits : World.Awaits ⟨p, r⟩ p.patterns[i] i x p.scope :=
    ⟨hnames, hi, by rw [hown], rfl, hlive.imp id fun hs => hown ▸ of_decide_eq_true hs⟩
  obtain ⟨context', u, n, u', hu, hrun, hu'⟩ := hcall.evaluated hrun
  obtain ⟨marks, hrec, hmarks⟩ := Expr.recorded_call (hawaits.later hu) hsink hshow hx hrun
  exact ⟨marks, hu'.report _ _ _ hrec, hmarks⟩

/-- In `0 + sink(esc(get(x)))` the flow of `x` has passed `esc` when it reaches the sink. -/
theorem direct_flow_through_esc_reported :
    let a : Pattern :=
      { name := "A", sources := ["get"], sinks := ["sink"], modes := [("esc", .text "show")], implicit := false }
    let b : Pattern :=
      { name := "B", sources := ["x"], sinks := ["esc"], modes := [("get", .text "hide")], implicit := true }
    let esc : Expr := .call "" "esc" [.call "" "get" [.name "x" { line := 1, column := 18 }]
      { line := 1, column := 14 }] { line := 1, column := 10 }
    let e : Expr := .binary .inert (.call "" "sink" [esc] { line := 1, column := 5 })
    ∃ m w, (e.evaluate .scoped .control).run ⟨Path.start [a, b], {}⟩ = (.ok m, w) ∧
      ∃ marks, w.report.Recorded ⟨"A", "x", { line := 1, column := 18 }, "sink", { line := 1, column := 5 }⟩
        .explicit marks ∧ ∀ k, k ∈ marks ↔ k ∈ [Mark.sanitizer "esc" 1] := by
  intro a b esc e
  obtain ⟨m, w, hrun⟩ : ∃ m w, (e.evaluate .scoped .control).run ⟨Path.start [a, b], {}⟩ = (.ok m, w) :=
    Eval.exists_ok (by decide +kernel)
  have hx : (Expr.call "" "sink" [esc] { line := 1, column := 5 }).Carries a "x" { line := 1, column := 18 }
      [.sanitizer "esc" 1] :=
    .argument (List.mem_singleton_self _) (.argument (List.mem_singleton_self _)
      (.argument (List.mem_singleton_self _) .name))
  have hshow : ∀ g, a.isSanitizer g = true → a.shows? g = some true := by
    intro g hg
    rw [List.mem_singleton.1 (of_decide_eq_true hg)]
    rfl
  exact ⟨m, w, hrun, direct_flow_reported (by decide) hrun
    (.operand (List.mem_cons_of_mem _ (List.mem_singleton_self _)) (.self _)) (List.mem_cons_self ..) rfl
    (fun _ => hshow) hx (.inl (by decide))⟩

end TaintFlow
