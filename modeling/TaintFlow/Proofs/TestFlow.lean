import TaintFlow.Proofs.Intake

/-
The flows of expressions whose variables are all assigned. Evaluating such an expression finds no source, so its
flows can be read off the expression and the path: from the variables, from the functions that are called and, if
the expression is evaluated as a value, from the attributes; every call passes on the flows of its arguments.

A test is evaluated as a condition. It has the flows of the value but for those that attributes outside of call
arguments bring in by their own names.
-/
namespace TaintFlow

/-! ## Paths that find no source -/

/-- The second path has the sources and flows of the first, and all its assigned variables. -/
structure Path.Steady (p q : Path) : Prop where
  bare : q.patterns.map Pattern.bare = p.patterns.map Pattern.bare
  scope : q.scope = p.scope
  sources : ∀ i s, s ∈ (q.view (.own i)).sources ↔ s ∈ (p.view (.own i)).sources
  initialized : ∀ x ∈ p.initialized, x ∈ q.initialized
  flows : ∀ {x name s f}, q.Has x name s f ↔ p.Has x name s f

namespace Path

variable {p q r : Path}

theorem Steady.refl (p : Path) : p.Steady p := ⟨rfl, rfl, fun _ _ => .rfl, fun _ h => h, .rfl⟩

theorem Steady.trans (h : p.Steady q) (h' : q.Steady r) : p.Steady r where
  bare := h'.bare.trans h.bare
  scope := h'.scope.trans h.scope
  sources := fun i s => (h'.sources i s).trans (h.sources i s)
  initialized := fun x hx => h'.initialized x (h.initialized x hx)
  flows := h'.flows.trans h.flows

theorem Steady.clean (h : p.Steady q) : q.clean = p.clean := clean_eq h.bare

end Path

namespace Expr

/-- All variables that the expression reads are assigned. -/
def Settled (e : Expr) (p : Path) : Prop := ∀ x, e.Reads x → x ∈ p.initialized

theorem Settled.part {e part : Expr} {p : Path} (h : e.Settled p) (hpart : part ∈ e.parts) : part.Settled p :=
  fun x ⟨site, hs, hx⟩ => h x ⟨site, mem_sites_of_mem_parts hpart hs, hx⟩

/-- An expression of assigned variables finds no source. -/
theorem steady_evaluate [SetOrder] {edition : Edition} {e : Expr} {context : Context} {w v : World}
    {r : Except Fault Taint} (hs : e.Settled w.path) (h : (e.evaluate edition context).run w = (r, v)) :
    w.path.Steady v.path := by
  have hgrows := (e.grows_evaluate edition context w).path
  rw [h] at hgrows
  refine ⟨hgrows.map_bare, hgrows.scope, fun i s => ⟨fun hv => ?_, (hgrows.view_own i).sources s⟩,
    hgrows.initialized, hgrows.has⟩
  rcases (hgrows.view_own i).new s hv with hw | hread
  · exact hw
  · exact (spares_evaluate h).sources s (hs s hread) i hv

/-! ## Flows of expressions -/

/-- The flows of an expression, from what the path holds for its variables, for the pattern at place `i`. -/
inductive Yields [SetOrder] (edition : Edition) (p : Path) (name : String) (i : Nat) :
    Context → Expr → String → Flow → Prop where
  | source {context : Context} {x : String} {spot : Spot} : x ∈ (p.view (.own i)).sources →
    Yields edition p name i context (.name x spot) x { position := edition.place spot p.scope }
  | stored {context : Context} {x s : String} {spot : Spot} {f : Flow} : p.Has x name s f →
    Yields edition p name i context (.name x spot) s f
  | operand {context : Context} {e child : Expr} {s : String} {f : Flow} : child ∈ e.operands →
    Yields edition p name i context child s f → Yields edition p name i context e s f
  | adds {e : Expr} {s : String} {f : Flow} : e.Adds edition p name i s f → Yields edition p name i .value e s f
  | function {context : Context} {r g : String} {args : List Expr} {spot : Spot} : g ∈ (p.view (.own i)).sources →
    Yields edition p name i context (.call r g args spot) g
      ((p.view (.own i)).pass g spot.line { position := edition.place spot p.scope })
  | argument {context : Context} {r g s : String} {args : List Expr} {spot : Spot} {arg : Expr} {f : Flow} :
    arg ∈ args → Yields edition p name i .value arg s f →
    Yields edition p name i context (.call r g args spot) s ((p.view (.own i)).pass g spot.line f)

variable {edition : Edition} {p : Path} {q : String} {i : Nat}

/-- The expression has exactly the flows that are read off it, in every world that is as the path. -/
def Shows [SetOrder] (edition : Edition) (p : Path) (q : String) (i : Nat) (e : Expr) : Prop :=
  ∀ ⦃context : Context⦄ ⦃w v : World⦄ ⦃m : Taint⦄, context = .value ∨ context = .condition → p.Steady w.path →
    (e.evaluate edition context).run w = (.ok m, v) → ∀ {s f}, m.Has q s f ↔ Yields edition p q i context e s f

theorem shows_all [SetOrder] {context : Context} (hc : context = .value ∨ context = .condition) :
    ∀ {operands : List Expr} {w v : World} {m m' : Taint}, (∀ e ∈ operands, e.Settled p) →
    (∀ e ∈ operands, e.Shows edition p q i) → p.Steady w.path →
    (Expr.evaluateAll edition context operands m).run w = (.ok m', v) → p.Steady v.path ∧ ∀ {s f}, m'.Has q s f ↔
      m.Has q s f ∨ ∃ e ∈ operands, Yields edition p q i context e s f
  | [], w, v, m, m', _, _, hw, h => by
    rw [evaluateAll_nil] at h
    cases h
    exact ⟨hw, by simp⟩
  | e :: rest, w, v, m, m', hs, ih, hw, h => by
    rw [List.forall_mem_cons] at hs ih
    rw [evaluateAll_cons] at h
    obtain ⟨a, w₁, ha, h⟩ := Eval.bind_ok h
    have hw₁ := hw.trans (steady_evaluate (fun x hx => hw.initialized x (hs.1 x hx)) ha)
    obtain ⟨hv, hrest⟩ := shows_all hc hs.2 ih.2 hw₁ h
    refine ⟨hv, fun {s f} => ?_⟩
    simp only [hrest, MultiLabel.has_combine, ih.1 hc hw ha, List.mem_cons, exists_eq_or_imp, or_assoc]

theorem shows_args [SetOrder] : ∀ {args : List Expr} {w v : World} {m k m' k' : Taint}, (∀ e ∈ args, e.Settled p) →
    (∀ e ∈ args, e.Shows edition p q i) → p.Steady w.path →
    (Expr.evaluateArgs edition args m k).run w = (.ok (m', k'), v) → p.Steady v.path ∧ ∀ {s f}, m'.Has q s f ↔
      m.Has q s f ∨ ∃ e ∈ args, Yields edition p q i .value e s f
  | [], w, v, m, k, m', k', _, _, hw, h => by
    rw [Expr.evaluateArgs.eq_def] at h
    cases h
    exact ⟨hw, by simp⟩
  | e :: rest, w, v, m, k, m', k', hs, ih, hw, h => by
    rw [List.forall_mem_cons] at hs ih
    rw [Expr.evaluateArgs.eq_def] at h
    obtain ⟨a, w₁, ha, h⟩ := Eval.bind_ok h
    obtain ⟨b, w₂, hb, h⟩ := Eval.bind_ok h
    have hw₁ := hw.trans (steady_evaluate (fun x hx => hw.initialized x (hs.1 x hx)) ha)
    have hw₂ := hw₁.trans (steady_evaluate (fun x hx => hw₁.initialized x (hs.1 x hx)) hb)
    obtain ⟨hv, hrest⟩ := shows_args hs.2 ih.2 hw₂ h
    refine ⟨hv, fun {s f} => ?_⟩
    simp only [hrest, MultiLabel.has_combine, ih.1 (.inl rfl) hw ha, List.mem_cons, exists_eq_or_imp, or_assoc]

theorem shows_name [SetOrder] {x : String} {spot : Spot} (hi : p.clean.Refers q i) (hs : (Expr.name x spot).Settled p) :
    (Expr.name x spot).Shows edition p q i := by
  intro context w v m hc hw h s f
  have hx : x ∈ p.initialized := hs x ⟨.name x spot, by rw [sites]; simp, by simp [Site.reads]⟩
  have hx' := hw.initialized x hx
  rw [Expr.evaluate.eq_def] at h
  have hc : context ≠ .control := by rcases hc with rfl | rfl <;> simp
  rw [Eval.has_readName h hc (.inr hx') (hw.clean ▸ hi), hw.scope, hw.sources, hw.flows]
  constructor
  · rintro (⟨rfl, rfl, hsource⟩ | ⟨-, hf⟩)
    · exact .source (hsource hx')
    · exact .stored hf
  · intro hf
    cases hf with
    | source hsource => exact .inl ⟨rfl, rfl, fun _ => hsource⟩
    | stored hf => exact .inr ⟨hx', hf⟩
    | operand hc _ => exact absurd hc List.not_mem_nil
    | adds hf => exact hf.elim

theorem shows_call [SetOrder] {r g : String} {args : List Expr} {spot : Spot} (hi : p.clean.Refers q i)
    (hs : (Expr.call r g args spot).Settled p) (ih : ∀ e ∈ args, e.Shows edition p q i) :
    (Expr.call r g args spot).Shows edition p q i := by
  intro context w v m hc hw h s f
  have hi' : w.path.clean.Refers q i := hw.clean ▸ hi
  obtain ⟨a, w₁, m', k, u, hreceiver, hargs, -, hm⟩ := call_flows h
  -- the receiver is assigned, if there is one
  have hr : ¬ (r ≠ "" ∧ r ∉ w.path.initialized) := by
    rintro ⟨hne, hnew⟩
    exact hnew (hw.initialized r (hs r ⟨.call r g spot, by rw [sites]; simp, by simp [Site.reads, Site.receiver, hne]⟩))
  obtain ⟨rfl, ha⟩ := Eval.readReceiver_flows hreceiver
  have hnone : ∀ {s f}, ¬ a.Has q s f := fun hf => hr ⟨((ha hi').1 hf).1, ((ha hi').1 hf).2.1⟩
  have hw₁ : p.Steady (w.path.consult r) := by rwa [Path.consult, if_neg hr]
  obtain ⟨hu, hm'⟩ := shows_args (fun e he => hs.part he) ih hw₁ hargs
  have hpass := Pattern.pass_of_bare (Path.view_own_bare hw.bare i) g spot.line
  rw [hm (by rcases hc with rfl | rfl <;> simp) hi']
  simp only [hm', hnone, false_or, hu.scope, hu.sources, hpass]
  constructor
  · rintro ⟨f, ⟨arg, harg, hf⟩ | ⟨rfl, rfl, hsource⟩, rfl⟩
    · exact .argument harg hf
    · exact .function hsource
  · intro hf
    cases hf with
    | function hsource => exact ⟨_, .inr ⟨rfl, rfl, hsource⟩, rfl⟩
    | argument harg hf => exact ⟨_, .inl ⟨_, harg, hf⟩, rfl⟩
    | operand hc _ => exact absurd hc List.not_mem_nil
    | adds hf => exact hf.elim

theorem Adds.steady {p' : Path} {e : Expr} {s : String} {f : Flow} (h : p.Steady p') :
    e.Adds edition p' q i s f ↔ e.Adds edition p q i s f := by
  unfold Adds
  split
  · rw [h.scope, h.sources, h.flows]
  · rfl

theorem shows_compound [SetOrder] {e : Expr} (hi : p.clean.Refers q i) (hcompound : e.compound = true)
    (hs : e.Settled p) (hparts : e.parts = e.operands) (ih : ∀ part ∈ e.parts, part.Shows edition p q i) :
    e.Shows edition p q i := by
  intro context w v m hc hw h s f
  obtain ⟨m', u, hall, hv, hm⟩ := compound_flows hcompound h
  rw [← hparts] at hall
  obtain ⟨hu, hm'⟩ := shows_all hc (fun part hpart => hs.part hpart) ih hw hall
  rw [hm (hw.clean ▸ hi), hm', hv, Adds.steady hu]
  simp only [w.path.not_has_clean, false_or, hparts]
  constructor
  · rintro (⟨part, hpart, hf⟩ | ⟨rfl, hf⟩)
    · exact .operand hpart hf
    · exact .adds hf
  · intro hf
    cases hf with
    | operand hpart hf => exact .inl ⟨_, hpart, hf⟩
    | adds hf => exact .inr ⟨rfl, hf⟩
    | source | stored | function | argument => cases hcompound

/-- An expression of assigned variables has exactly the flows that are read off it. -/
theorem shows [SetOrder] (hi : p.clean.Refers q i) (e : Expr) : e.Settled p → e.Shows edition p q i := by
  induction e using induction_on_parts with | h e ih => ?_
  intro hs
  have ih : ∀ part ∈ e.parts, part.Shows edition p q i := fun part hpart => ih part hpart (hs.part hpart)
  cases e with
  | name x spot => exact shows_name hi hs
  | call r g args spot => exact shows_call hi hs ih
  | fails fault =>
    intro context w v m hc hw h
    rw [Expr.evaluate.eq_def] at h
    cases h
  | _ => exact shows_compound hi rfl hs rfl ih

/-! ## Values and tests -/

/-- The second expression is a part of the first outside of call arguments. -/
inductive Exposes : Expr → Expr → Prop where
  | self (e : Expr) : Exposes e e
  | operand {e child part : Expr} : child ∈ e.operands → Exposes child part → Exposes e part

/-- An attribute outside of call arguments adds the flow. -/
def Withholds (edition : Edition) (p : Path) (name : String) (i : Nat) (e : Expr) (s : String) (f : Flow) : Prop :=
  ∃ part, e.Exposes part ∧ part.Adds edition p name i s f

theorem Yields.condition [SetOrder] {context : Context} {e : Expr} {s : String} {f : Flow}
    (h : Yields edition p q i context e s f) :
    Yields edition p q i .condition e s f ∨ (context = .value ∧ e.Withholds edition p q i s f) := by
  induction h with
  | source hsource => exact .inl (.source hsource)
  | stored hf => exact .inl (.stored hf)
  | operand hc _ ih =>
    rcases ih with hf | ⟨hvalue, part, hpart, hf⟩
    · exact .inl (.operand hc hf)
    · exact .inr ⟨hvalue, part, .operand hc hpart, hf⟩
  | adds hf => exact .inr ⟨rfl, _, .self _, hf⟩
  | function hsource => exact .inl (.function hsource)
  | argument harg hf _ => exact .inl (.argument harg hf)

theorem Yields.value [SetOrder] {context : Context} {e : Expr} {s : String} {f : Flow}
    (h : Yields edition p q i context e s f) :
    Yields edition p q i .value e s f := by
  induction h with
  | source hsource => exact .source hsource
  | stored hf => exact .stored hf
  | operand hc _ ih => exact .operand hc ih
  | adds hf => exact .adds hf
  | function hsource => exact .function hsource
  | argument harg hf _ => exact .argument harg hf

theorem Exposes.yields [SetOrder] {e part : Expr} (h : e.Exposes part) {s : String} {f : Flow}
    (hf : part.Adds edition p q i s f) : Yields edition p q i .value e s f := by
  induction h with
  | self e => exact .adds hf
  | operand hc _ ih => exact .operand hc (ih hf)

/-- A value has the flows of a test and those that attributes add. -/
theorem yields_value_iff [SetOrder] {e : Expr} {s : String} {f : Flow} :
    Yields edition p q i .value e s f ↔
      Yields edition p q i .condition e s f ∨ e.Withholds edition p q i s f := by
  constructor
  · exact fun h => h.condition.imp id fun hf => hf.2
  · rintro (h | ⟨part, hpart, hf⟩)
    · exact h.value
    · exact hpart.yields hf

theorem adds_iff {e : Expr} {s : String} {f : Flow} :
    e.Adds edition p q i s f ↔ ∃ base attr spot, e = .attribute base attr spot ∧
      ((s = attr ∧ f = { position := edition.place spot p.scope } ∧ attr ∈ (p.view (.own i)).sources) ∨
        p.Has attr q s f) := by
  unfold Adds
  split
  · simp
  · rename_i h
    refine ⟨False.elim, ?_⟩
    rintro ⟨base, attr, spot, rfl, -⟩
    exact h base attr spot rfl

theorem withholds_iff {e : Expr} {s : String} {f : Flow} :
    e.Withholds edition p q i s f ↔ ∃ base attr spot, e.Exposes (.attribute base attr spot) ∧
      ((s = attr ∧ f = { position := edition.place spot p.scope } ∧ attr ∈ (p.view (.own i)).sources) ∨
        p.Has attr q s f) := by
  unfold Withholds
  simp only [adds_iff]
  constructor
  · rintro ⟨_, he, base, attr, spot, rfl, hf⟩
    exact ⟨base, attr, spot, he, hf⟩
  · rintro ⟨base, attr, spot, he, hf⟩
    exact ⟨_, he, base, attr, spot, rfl, hf⟩

end Expr

/-- Entering a test puts its labels as a condition and for control on the stack, above what is there. -/
theorem Eval.enterTest_ok [SetOrder] {edition : Edition} {test : Expr} {w v : World}
    (h : (enterTest edition test).run w = (.ok (), v)) :
    ∃ c k u u', (test.evaluate edition .condition).run w = (.ok c, u) ∧
      (test.evaluate edition .control).run u = (.ok k, u') ∧
      v.path.control = w.path.control ++ [(w.path.currentControl.combine k).combine c] := by
  unfold enterTest at h
  obtain ⟨c, u, hc, h⟩ := bind_ok h
  obtain ⟨k, u', hk, h⟩ := bind_ok h
  cases h
  have hgrows := ((Expr.later_evaluate hc).trans (Expr.later_evaluate hk)).path
  refine ⟨c, k, u, u', hc, hk, ?_⟩
  show u'.path.control ++ [(u'.path.currentControl.combine k).combine c] = _
  unfold Path.currentControl
  rw [hgrows.control, hgrows.clean]

/-- A test over assigned variables puts all flows of its value on the control stack but for those that attributes
outside of call arguments bring in by their own names. -/
theorem value_flows_of_tests [SetOrder] {edition : Edition} {test : Expr} {w u v : World} {n : Taint}
    (hassigned : ∀ x, test.Reads x → x ∈ w.path.initialized)
    (hvalue : (test.evaluate edition .value).run w = (.ok n, u))
    (htest : (Eval.enterTest edition test).run w = (.ok (), v)) :
    ∃ c k u₁ u₂ pushed, (test.evaluate edition .condition).run w = (.ok c, u₁) ∧
      (test.evaluate edition .control).run u₁ = (.ok k, u₂) ∧ v.path.control = w.path.control ++ [pushed] ∧
      ∀ a, (w.path.named a.name).getLast? = some a → ∀ s f,
        (pushed.Has a.name s f ↔
          w.path.currentControl.Has a.name s f ∨ k.Has a.name s f ∨ c.Has a.name s f) ∧
        (n.Has a.name s f ↔ c.Has a.name s f ∨ ∃ base attr spot, test.Exposes (.attribute base attr spot) ∧
          ((s = attr ∧ f = { position := edition.place spot w.path.scope } ∧ a.isSource attr = true) ∨
            w.path.Has attr a.name s f)) := by
  obtain ⟨c, k, u₁, u₂, hc, hk, hv⟩ := Eval.enterTest_ok htest
  refine ⟨c, k, u₁, u₂, _, hc, hk, hv, fun a ha s f => ⟨?_, ?_⟩⟩
  · rw [MultiLabel.has_combine, MultiLabel.has_combine, or_assoc]
  · obtain ⟨i, hi, rfl⟩ := Path.exists_refers ha
    have hshows : test.Shows edition w.path (w.path.view (.own i)).name i := test.shows hi hassigned
    rw [hshows (.inl rfl) (.refl _) hvalue, hshows (.inr rfl) (.refl _) hc, Expr.yields_value_iff, Expr.withholds_iff]
    simp only [Pattern.isSource, decide_eq_true_eq]

/-- In the test `o and h(o.get)` the attribute is the argument of a call, so its flow is on the stack. -/
theorem attribute_in_call_argument_of_test :
    let test : Expr := .boolean [.name "o" { line := 2, column := 3 },
      .call "" "h" [.attribute (.name "o" { line := 2, column := 11 }) "get" { line := 2, column := 11 }]
        { line := 2, column := 9 }]
    let a : Pattern :=
      { name := "A", sources := ["get"], sinks := ["sink"], modes := [], implicit := true }
    let w : World := ⟨(Path.start [a]).markInitialized "o", {}⟩
    ∃ n u v, (test.evaluate .scoped .value).run w = (.ok n, u) ∧
      (Eval.enterTest .scoped test).run w = (.ok (), v) ∧
      n.Has "A" "get" { position := { line := 2, column := 11 } } ∧
      ∃ pushed, v.path.control = [pushed] ∧ pushed.Has "A" "get" { position := { line := 2, column := 11 } } := by
  intro test a w
  obtain ⟨n, u, hvalue, hn⟩ : ∃ n u, (test.evaluate .scoped .value).run w = (.ok n, u) ∧
      n.Has "A" "get" { position := { line := 2, column := 11 } } := Eval.exists_ok_and (by decide +kernel)
  obtain ⟨_, v, htest⟩ : ∃ r v, (Eval.enterTest .scoped test).run w = (.ok r, v) :=
    Eval.exists_ok (by decide +kernel)
  have hassigned : ∀ x, test.Reads x → x ∈ w.path.initialized := by
    have hreads : ∀ site ∈ test.sites, ∀ x ∈ site.reads, x ∈ w.path.initialized := by decide +kernel
    exact fun x ⟨site, hs, hx⟩ => hreads site hs x hx
  obtain ⟨c, k, u₁, u₂, pushed, -, -, hv, hflows⟩ := value_flows_of_tests hassigned hvalue htest
  obtain ⟨hpushed, hboth⟩ := hflows a rfl "get" { position := { line := 2, column := 11 } }
  refine ⟨n, u, v, hvalue, htest, hn, pushed, hv, hpushed.2 (.inr (.inr ?_))⟩
  refine (hboth.1 hn).resolve_right ?_
  -- outside of call arguments the test has no attribute
  rintro ⟨base, attr, spot, he, -⟩
  simp only [test] at he
  cases he with
  | operand hc he =>
    rcases List.mem_pair.1 hc with rfl | rfl
    all_goals cases he with
      | operand hc _ => exact absurd hc List.not_mem_nil

/-- The tests `o.get` and `o.x` do not see what their values see, though `get` is a source and `x` has a flow. -/
theorem tests_miss_attributes :
    let part (attr : String) : Expr := .attribute (.name "o" { line := 3 }) attr { line := 3 }
    let a : Pattern :=
      { name := "A", sources := ["get"], sinks := ["sink"], modes := [], implicit := true }
    let start : World := ⟨(Path.start [a]).markInitialized "o", {}⟩
    let assigned (edition : Edition) : World :=
      ((Eval.assign edition [.name "x"] (.call "" "get" [] { line := 1 }) { line := 1 }).run start).2
    let has (m : Taint) (line : Int) : Prop := m.Has "A" "get" { position := { line } }
    let misses (edition : Edition) (test : Expr) (w : World) (line : Int) : Prop :=
      (∃ n ∈ ((test.evaluate edition .value).run w).1.toOption, has n line) ∧
        ∃ m ∈ ((Eval.enterTest edition test).run w).2.path.control.getLast?, ¬ has m line
    misses .plain (part "get") start 3 ∧ misses .scoped (part "get") start 3 ∧
      misses .plain (part "x") (assigned .plain) 1 ∧ misses .scoped (part "x") (assigned .scoped) 1 := by
  decide +kernel

end TaintFlow
