import TaintFlow.Proofs.Following
import TaintFlow.Proofs.Ways

/-
Sharing makes no difference. On a bench a variable hands on the multilabel that is stored for it, the names of an
assignment share one, and sources and sanitizers are put on multilabels in place. Still an expression or an assignment
does there what it does to values: a multilabel is changed in place only while it is new and nothing else refers to it.
So every multilabel that was on the bench shows the flows that it showed, and a whole way through a program comes to the
same on a bench as on values.
-/
namespace TaintFlow

open Workbench

/-- The path has gone on from one bench to another, on the way its variables may have got other multilabels, and it can
go on. -/
structure Workbench.Arrives (edition : Edition) (i r : Nat) (b b' : Workbench) : Prop where
  frame : Untouched i r b b'
  ready : b'.Ready edition i r

theorem Workbench.Arrives.reaches {edition : Edition} {i r : Nat} {b b' b'' : Workbench} (h : Arrives edition i r b b')
    (h' : Reaches edition i r b' b'') : Arrives edition i r b b'' :=
  ⟨h.frame.trans h'.later.toUntouched, h'.ready⟩

namespace Work

variable {b b₀ : Workbench} {edition : Edition} {i r k l : Nat} {m n : Taint}

/-! ## New multilabels in the course of work -/

section Making

variable {γ δ : Type} {R : Workbench → Prop} {S : γ → δ → Workbench → Prop} {x : Work Nat} {f : Nat → Work γ}

theorem Makes.follows (h : Makes edition i r x b m) {y : Eval Taint} (hy : y.run (b.world i r) = (.ok m, b.world i r)) :
    Follows i r (Reaches edition i r b) x y b fun k m b' => b'.Stands i k m ∧ Fresh i b b' k := by
  obtain ⟨k, b', hyield, hworld, hb', hmade⟩ := h
  exact .of_yields hyield (by rw [hworld, hy]) hb' hmade

theorem Makes.left (h : Makes edition i r x b m) {y : Eval δ}
    (hf : ∀ k b', Reaches edition i r b b' → b'.Stands i k m → Fresh i b b' k → Follows i r R (f k) y b' S) :
    Follows i r R (x >>= f) y b S := by
  obtain ⟨k, b', hyield, hworld, hb', hk, hfresh⟩ := h
  exact .left hyield hworld (hf k b' hb' hk hfresh)

/-- What follows from one bench on follows from one at which the path arrived before. -/
theorem Follows.arriving {α β : Type} {x : Work α} {y : Eval β} {Q : α → β → Workbench → Prop}
    (h : Follows i r (Reaches edition i r b) x y b Q) (h₀ : Arrives edition i r b₀ b) :
    Follows i r (Arrives edition i r b₀) x y b fun a c b' => Untouched i r b b' ∧ Q a c b' :=
  h.imp (fun _ hb' => h₀.reaches hb') fun _ _ _ hb' hq => ⟨hb'.later.toUntouched, hq⟩

theorem follows_clean (hb : b.Ready edition i r) :
    Follows i r (Reaches edition i r b) (clean i) Eval.clean b fun k m b' => b'.Stands i k m ∧ Fresh i b b' k :=
  (makes_clean hb).follows rfl

/-- What is evaluated next is combined with what there is. -/
theorem Follows.combine [SetOrder] {y : Eval Taint} {g : Taint → Eval δ}
    (hx : Follows i r (Reaches edition i r b) x y b fun l n b' => b'.Stands i l n) (h : Reaches edition i r b₀ b)
    (hk : b.Stands i k m)
    (hf : ∀ k' n b', Reaches edition i r b₀ b' → Later i r b b' → b'.Stands i k' (m.combine n) → Fresh i b₀ b' k' →
      Follows i r (Reaches edition i r b₀) (f k') (g n) b' S) :
    Follows i r (Reaches edition i r b₀) (x >>= fun l => combineMultiLabels k l >>= f) (y >>= g) b S := by
  refine (hx.since h).bind fun l n b₁ hb₁ hl => ?_
  refine (makes_combineMultiLabels hb₁.ready (hk.mono hl.1.toUntouched) hl.2).left fun k' b₂ hb₂ hk' hfresh => ?_
  exact hf k' n b₂ (hb₁.trans hb₂) (hl.1.trans hb₂.later) hk' (hfresh.since hb₁)

end Making

/-! ## Targets and names -/

theorem follows_mark (hb : b.Ready edition i r) (name : String) (names : List String) :
    Follows i r (Reaches edition i r b)
      (do
        markInitialized i name
        return (← clean i, names))
      (do
        Eval.setPath ((← Eval.path).markInitialized name)
        return (← Eval.clean, names)) b
      fun out out' b' => b'.Stands i out.1 out'.1 ∧ out.2 = out'.2 := by
  obtain ⟨b₁, hmark, hb₁, hworld⟩ := markInitialized_reaches hb name
  have hrest : Follows i r (Reaches edition i r b) (do return (← clean i, names)) (do return (← Eval.clean, names)) b₁
      fun out out' b' => b'.Stands i out.1 out'.1 ∧ out.2 = out'.2 :=
    ((follows_clean hb₁.ready).since hb₁).bind fun _ _ _ hb₂ hclean => .pure hb₂ ⟨hclean.2.1, rfl⟩
  exact .step hmark (by rw [hworld]; rfl) hrest

/-- A name gets its multilabels. -/
theorem bindName_arrives (hb : b.Ready edition i r) (hk : b.Stands i k m) (hl : b.Stands i l n) (x : String) :
    ∃ b', Yields (do
        changeVariables (b.path i).labels (·.insert x (some k))
        changeVariables (b.path i).controlLabels (·.insert x (some l))
        return l) b l b' ∧ Arrives edition i r b b' ∧
      b'.world i r = { b.world i r with path := { b.pathOf i with
        labels := (b.pathOf i).labels.update x m
        controlLabels := (b.pathOf i).controlLabels.update x n } } := by
  have hmem := (b.path i).labels_mem
  have hb₁ := hb.binding (x := x) hmem hk.lt
  have hframe₁ : Untouched i r b (b.binding (b.path i).labels x k) := untouched_binding hmem k
  have hl₁ := hl.mono hframe₁
  have hmem₁ := ((b.binding (b.path i).labels x k).path i).controlLabels_mem
  refine ⟨(b.binding (b.path i).labels x k).binding (b.path i).controlLabels x l, rfl,
    ⟨hframe₁.trans (untouched_binding hmem₁ l), hb₁.binding hmem₁ hl₁.lt⟩, ?_⟩
  refine congrArg (World.mk · (b.report r)) ((pathOf_binding_controlLabels hb₁ x l).trans ?_)
  rw [hl₁.taintOf_eq, pathOf_binding_labels hb, hk.taintOf_eq]

/-! ## Expressions -/

variable [SetOrder]

mutual

/-- The multilabel of an expression is the taint of its value. -/
theorem follows_evaluate : ∀ (e : Expr) (context : Context) {b : Workbench}, b.Ready edition i r →
    Follows i r (Reaches edition i r b) (evaluate i r e context) (e.evaluate edition context) b
      fun k m b' => b'.Stands i k m
  | .name id spot, context, b, hb => by
    rw [evaluate.eq_def, Expr.evaluate.eq_def]
    exact follows_readName hb id spot context
  | .attribute base attr spot, context, b, hb => by
    rw [evaluate.eq_def, Expr.evaluate.eq_def]
    refine (follows_clean hb).bind fun _ _ b₁ hb₁ hclean => ?_
    refine (follows_evaluate base context hb₁.ready).combine hb₁ hclean.1 fun k m b₂ hb₂ _ hk hfresh => ?_
    by_cases hcontext : context = .value
    · rw [if_pos hcontext, if_pos hcontext]
      exact follows_readAttribute hb₂ hk hfresh attr spot
    · rw [if_neg hcontext, if_neg hcontext]
      exact .pure hb₂ hk
  | .subscript container index spot, context, b, hb => by
    rw [evaluate.eq_def, Expr.evaluate.eq_def]
    refine (follows_clean hb).bind fun _ _ b₁ hb₁ hclean => ?_
    refine (follows_evaluate container context hb₁.ready).combine hb₁ hclean.1 fun _ _ b₂ hb₂ _ hc _ => ?_
    refine (follows_evaluate index context hb₂.ready).combine hb₂ hc fun k m b₃ hb₃ _ hk _ => ?_
    by_cases hcontext : context = .value
    · rw [if_pos hcontext, if_pos hcontext]
      refine ((follows_flagContainer hb₃.ready hk container spot).since hb₃).bind fun _ _ b₄ hb₄ hflag => ?_
      exact .pure hb₄ (hk.mono hflag.1.toUntouched)
    · rw [if_neg hcontext, if_neg hcontext]
      exact .pure hb₃ hk
  | .binary left right, context, b, hb => by
    rw [evaluate.eq_def, Expr.evaluate.eq_def]
    refine (follows_clean hb).bind fun _ _ b₁ hb₁ hclean => ?_
    refine (follows_evaluate left context hb₁.ready).combine hb₁ hclean.1 fun _ _ b₂ hb₂ _ hl _ => ?_
    refine ((follows_evaluate right context hb₂.ready).since hb₂).bind fun _ _ b₃ hb₃ hr => ?_
    have hmakes := makes_combineMultiLabels hb₃.ready (hl.mono hr.1.toUntouched) hr.2
    exact ((hmakes.follows rfl).since hb₃).weaken fun _ _ _ h => h.2.1
  | .call receiver function args spot, context, b, hb => by
    rw [evaluate.eq_def, Expr.evaluate.eq_def]
    refine (follows_readReceiver hb receiver spot).bind fun k m b₁ hb₁ hk => ?_
    refine ((follows_clean hb₁.ready).since hb₁).bind fun l n b₂ hb₂ hl => ?_
    refine (follows_evaluateArgs args hb₂ (hk.1.mono hl.1.toUntouched) (hk.2.mono hk.1.lt hl.1) hl.2.1).bind
      fun out out' b₃ hb₃ hargs => ?_
    refine (follows_applyFunction hb₃ hargs.1 hargs.2.1 hargs.2.2 function spot).bind fun out out' b₄ hb₄ hout => ?_
    by_cases hcontext : context = .control
    · exact .pure hb₄ (by rw [if_pos hcontext, if_pos hcontext]; exact hout.2)
    · exact .pure hb₄ (by rw [if_neg hcontext, if_neg hcontext]; exact hout.1)
  | .compare left rest, context, b, hb => by
    rw [evaluate.eq_def, Expr.evaluate.eq_def]
    exact (follows_evaluate left context hb).bind fun _ _ _ hb₁ hl => follows_evaluateAll rest context hb₁ hl
  | .unary operand, context, b, hb => by
    rw [evaluate.eq_def, Expr.evaluate.eq_def]
    exact follows_evaluate operand context hb
  | .boolean values, context, b, hb => by
    rw [evaluate.eq_def, Expr.evaluate.eq_def]
    exact (follows_clean hb).bind fun _ _ _ hb₁ hclean => follows_evaluateAll values context hb₁ hclean.1
  | .inert, context, b, hb => by
    rw [evaluate.eq_def, Expr.evaluate.eq_def]
    exact (follows_clean hb).weaken fun _ _ _ h => h.1
  | .missing, context, b, hb => by
    rw [evaluate.eq_def, Expr.evaluate.eq_def]
    exact (follows_clean hb).weaken fun _ _ _ h => h.1
  | .fails fault, context, b, hb => by
    rw [evaluate.eq_def, Expr.evaluate.eq_def]
    exact .throw fault ⟨.refl i r b, hb⟩

/-- The multilabel of the value stays new, so that the called function may change it in place. -/
theorem follows_evaluateArgs : ∀ (args : List Expr) {b₀ b : Workbench} {k l : Nat} {m n : Taint},
    Reaches edition i r b₀ b → b.Stands i k m → Fresh i b₀ b k → b.Stands i l n →
    Follows i r (Reaches edition i r b₀) (evaluateArgs i r args k l) (Expr.evaluateArgs edition args m n) b
      fun out out' b' => b'.Stands i out.1 out'.1 ∧ Fresh i b₀ b' out.1 ∧ b'.Stands i out.2 out'.2
  | [], _, _, _, _, _, _, hb, hk, hfresh, hl => by
    rw [evaluateArgs.eq_def, Expr.evaluateArgs.eq_def]
    exact .pure hb ⟨hk, hfresh, hl⟩
  | arg :: rest, _, _, _, _, _, _, hb, hk, hfresh, hl => by
    rw [evaluateArgs.eq_def, Expr.evaluateArgs.eq_def]
    refine (follows_evaluate arg .value hb.ready).combine hb hk fun k' m' b₁ hb₁ hlater₁ hk₁ hfresh₁ => ?_
    have hl₁ := hl.mono hlater₁.toUntouched
    refine (follows_evaluate arg .control hb₁.ready).combine hb₁ hl₁ fun l' n' b₂ hb₂ hlater₂ hl₂ _ => ?_
    exact follows_evaluateArgs rest hb₂ (hk₁.mono hlater₂.toUntouched) (hfresh₁.mono hk₁.lt hlater₂) hl₂

theorem follows_evaluateAll : ∀ (operands : List Expr) (context : Context) {b₀ b : Workbench} {k : Nat} {m : Taint},
    Reaches edition i r b₀ b → b.Stands i k m →
    Follows i r (Reaches edition i r b₀) (evaluateAll i r context operands k)
      (Expr.evaluateAll edition context operands m) b fun k m b' => b'.Stands i k m
  | [], _, _, _, _, _, hb, hk => by
    rw [evaluateAll.eq_def, Expr.evaluateAll.eq_def]
    exact .pure hb hk
  | operand :: rest, context, _, _, _, _, hb, hk => by
    rw [evaluateAll.eq_def, Expr.evaluateAll.eq_def]
    refine (follows_evaluate operand context hb.ready).combine hb hk fun _ _ _ hb₁ _ hk₁ _ => ?_
    exact follows_evaluateAll rest context hb₁ hk₁

end

/-! ## Assignments -/

/-- A target stands for the same names; the taint of the place itself is new. -/
theorem follows_takeTarget (hb : b.Ready edition i r) : ∀ t : Target,
    Follows i r (Reaches edition i r b) (takeTarget i r t) (Eval.takeTarget edition t) b
      fun out out' b' => b'.Stands i out.1 out'.1 ∧ out.2 = out'.2
  | .name id => follows_mark hb id [id]
  | .attribute base attr => follows_mark hb attr (base.toList ++ [attr])
  | .subscript container whole => by
    refine (follows_clean hb).bind fun _ _ b₁ hb₁ hclean => ?_
    refine (follows_evaluate whole .value hb₁.ready).combine hb₁ hclean.1 fun k m b₂ hb₂ _ hk _ => ?_
    cases container with
    | some id =>
      obtain ⟨b₃, hmark, hb₃, hworld⟩ := markInitialized_reaches hb₂.ready id
      have hk₃ := hk.mono hb₃.later.toUntouched
      exact .of_yields (hmark.bind (.pure _ _)) (by rw [hworld]; rfl) (hb₂.trans hb₃) ⟨hk₃, rfl⟩
    | none => exact .pure hb₂ ⟨hk, rfl⟩
  | .fails fault => .throw fault ⟨.refl i r b, hb⟩

theorem follows_takeTargets (targets : List Target) (names : List String) (h : Reaches edition i r b₀ b)
    (hk : b.Stands i k m) :
    Follows i r (Reaches edition i r b₀) (takeTargets i r targets k names) (Eval.takeTargets edition targets m names) b
      fun out out' b' => b'.Stands i out.1 out'.1 ∧ out.2 = out'.2 := by
  induction targets generalizing b k m names with
  | nil => exact .pure h ⟨hk, rfl⟩
  | cons t rest ih =>
    refine ((follows_takeTarget h.ready t).since h).bind fun out out' b₁ hb₁ hout => ?_
    refine (makes_combineMultiLabels hb₁.ready (hk.mono hout.1.toUntouched) hout.2.1).left fun k' b₂ hb₂ hk' _ => ?_
    rw [show out.2 = out'.2 from hout.2.2]
    exact ih out'.2 (hb₁.trans hb₂) hk'

theorem makes_before (hb : b.Ready edition i r) (x : String) :
    Makes edition i r (before i x) b ((b.pathOf i).before x) := by
  obtain ⟨c, b₁, hyield₁, hworld₁, hb₁, hc, hfresh⟩ := makes_currentControl hb
  have hpath : b₁.pathOf i = b.pathOf i := congrArg World.path hworld₁
  have hget := hb₁.ready.get?_stored (b₁.path i).controlLabels_mem x
  unfold before Path.before
  rw [← hpath, show (b₁.pathOf i).controlLabels.get? x = _ from hget]
  rw [← hpath] at hc
  cases hstored : ((b₁.bindings (b₁.path i).controlLabels).get? x).join with
  | some l =>
    obtain ⟨k, b₂, hyield₂, hworld₂, hb₂, hk, hfresh'⟩ :=
      makes_combineMultiLabels hb₁.ready ⟨hb₁.ready.stored_lt hstored, rfl⟩ hc
    refine ⟨k, b₂, hyield₁.bind ((Yields.bench b₁).bind ((Yields.stored? _ x b₁).bind ?_)), hworld₂.trans hworld₁,
      hb₁.trans hb₂, hk, hfresh'.since hb₁⟩
    rw [hstored]
    exact hyield₂
  | none =>
    refine ⟨c, b₁, hyield₁.bind ((Yields.bench b₁).bind ((Yields.stored? _ x b₁).bind ?_)), hworld₁, hb₁, hc, hfresh⟩
    rw [hstored]
    exact .pure _ _

/-- The name gets the multilabel of the value itself, and what conditions leave on it gets a new one. -/
theorem follows_assignName (h : Arrives edition i r b₀ b) (hk : b.Stands i k m) (hl : b.Stands i l n) (spot : Spot)
    (x : String) :
    Follows i r (Arrives edition i r b₀) (assignName i r spot k l x) (Eval.assignName edition spot m n x) b
      fun l' n' b' => b'.Stands i k m ∧ b'.Stands i l' n' := by
  refine .right rfl ((makes_before h.ready x).left fun c b₁ hb₁ hc _ => ?_)
  have hl₁ := hl.mono hb₁.later.toUntouched
  refine (makes_combineMultiLabels hb₁.ready hc hl₁).left fun l' b₂ hb₂ hl₂ _ => ?_
  have hk₂ := (hk.mono hb₁.later.toUntouched).mono hb₂.later.toUntouched
  have ha₂ := h.reaches (hb₁.trans hb₂)
  refine ((follows_flag hb₂.ready hk₂ x spot .explicit).arriving ha₂).bind fun _ _ b₃ ha₃ hflag => ?_
  have hl₃ := hl₂.mono hflag.1
  refine ((follows_flag ha₃.ready hl₃ x spot .implicit).arriving ha₃).bind fun _ _ b₄ ha₄ hflag' => ?_
  have hk₄ := (hk₂.mono hflag.1).mono hflag'.1
  have hl₄ := hl₃.mono hflag'.1
  obtain ⟨b₅, hbind, ha₅, hworld⟩ := bindName_arrives ha₄.ready hk₄ hl₄ x
  exact .of_yields ((Yields.bench b₄).bind hbind) (by rw [hworld]; rfl) ⟨ha₄.frame.trans ha₅.frame, ha₅.ready⟩
    ⟨hk₄.mono ha₅.frame, hl₄.mono ha₅.frame⟩

theorem follows_assignNames (spot : Spot) (names : List String) (h : Arrives edition i r b₀ b) (hk : b.Stands i k m)
    (hl : b.Stands i l n) :
    Follows i r (Arrives edition i r b₀) (assignNames i r spot k names l) (Eval.assignNames edition spot m names n) b
      fun l' n' b' => b'.Stands i k m ∧ b'.Stands i l' n' := by
  induction names generalizing b l n with
  | nil => exact .pure h ⟨hk, hl⟩
  | cons x rest ih => exact (follows_assignName h hk hl spot x).bind fun _ _ _ hb₁ hx => ih hb₁ hx.1 hx.2

theorem follows_assign (hb : b.Ready edition i r) (targets : List Target) (value : Expr) (spot : Spot) :
    Follows i r (Arrives edition i r b) (assign i r targets value spot) (Eval.assign edition targets value spot) b
      fun out out' b' => b'.Stands i out.1 out'.1 ∧ b'.Stands i out.2 out'.2 := by
  have ha : Arrives edition i r b b := ⟨.refl i r b, hb⟩
  refine ((follows_clean hb).arriving ha).bind fun _ _ b₁ ha₁ hclean => ?_
  have htake := follows_takeTargets targets [] ⟨.refl i r b₁, ha₁.ready⟩ hclean.2.1
  refine (htake.arriving ha₁).bind fun out out' b₂ ha₂ hout => ?_
  refine ((follows_evaluate value .value ha₂.ready).arriving ha₂).bind fun _ _ b₃ ha₃ hvalue => ?_
  refine (makes_combineMultiLabels ha₃.ready (hout.2.1.mono hvalue.1) hvalue.2).left fun k b₄ hb₄ hk _ => ?_
  have ha₄ := ha₃.reaches hb₄
  refine ((follows_clean ha₄.ready).arriving ha₄).bind fun _ _ b₅ ha₅ hclean => ?_
  refine ((follows_evaluate value .control ha₅.ready).arriving ha₅).bind fun _ _ b₆ ha₆ hcontrol => ?_
  have hclean₆ := hclean.2.1.mono hcontrol.1
  refine (makes_combineMultiLabels ha₆.ready hclean₆ hcontrol.2).left fun l b₇ hb₇ hl _ => ?_
  have hk₇ := ((hk.mono hclean.1).mono hcontrol.1).mono hb₇.later.toUntouched
  rw [show out.2 = out'.2 from hout.2.2]
  refine (follows_assignNames spot out'.2 (ha₆.reaches hb₇) hk₇ hl).bind fun _ _ _ ha₈ hnames => ?_
  exact .pure ha₈ hnames

/-! ## Sharing makes no difference -/

/-- An expression has the same outcome on a bench as on values: the fault, or the taint that its multilabel is, and the
path and the report that it leads to. Every multilabel that was on the bench is as it was, and every variable that had
one still has it. -/
theorem evaluate_on_shared_labels (hb : b.Ready edition i r) (e : Expr) (context : Context) :
    let out := (evaluate i r e context).run.run b
    (e.evaluate edition context).run (b.world i r) = (out.1.map (out.2.taintOf i), out.2.world i r) ∧
      Later i r b out.2 ∧ out.2.Ready edition i r := by
  obtain ⟨hrun, hreach⟩ := ((follows_evaluate e context hb).weaken fun _ _ _ h => h.taintOf_eq).run_eq
  exact ⟨hrun, hreach.later, hreach.ready⟩

/-- An assignment has the same outcome on a bench as on values. Its names come to share a multilabel, but every
multilabel that was on the bench is as it was. -/
theorem assign_on_shared_labels (hb : b.Ready edition i r) (targets : List Target) (value : Expr) (spot : Spot) :
    let out := (assign i r targets value spot).run.run b
    (Eval.assign edition targets value spot).run (b.world i r) =
        (out.1.map (Prod.map (out.2.taintOf i) (out.2.taintOf i)), out.2.world i r) ∧
      Untouched i r b out.2 ∧ out.2.Ready edition i r := by
  have hfollows := (follows_assign hb targets value spot).weaken
    fun out out' b' h => show Prod.map (b'.taintOf i) (b'.taintOf i) out = out' from
      Prod.ext h.1.taintOf_eq h.2.taintOf_eq
  obtain ⟨hrun, harrive⟩ := hfollows.run_eq
  exact ⟨hrun, harrive.frame, harrive.ready⟩

end Work

namespace Workbench

/-- The bench on which a path starts with its policy and an empty report. -/
def start (edition : Edition) (policy : List Pattern) : Workbench where
  edition
  patterns := policy
  labellings := [.empty, .empty]
  policies := [List.range policy.length]
  reports := [{}]
  paths := [{ labels := 0, initialized := [], policy := 0, control := [], controlLabels := 1 }]

variable (edition : Edition) (policy : List Pattern)

theorem bindings_start (g : Nat) : (start edition policy).bindings g = .empty := by
  rcases g with _ | _ | g <;> rfl

theorem ready_start : (start edition policy).Ready edition 0 0 where
  edition_eq := rfl
  closed :=
    { slots := List.forall_mem_nil _
      bindings := by
        intro t ht x k hk
        obtain rfl : t = .empty := by simpa [start] using ht
        cases hk }
  owned k _ name _ s _ hs := by
    have hempty : ((start edition policy).slots k).get? name = none := rfl
    cases hempty.symm.trans hs
  nodup := List.nodup_range
  own_lt _ hn := List.mem_range.1 hn
  path_lt := Nat.zero_lt_one
  report_lt := Nat.zero_lt_one
  labelling_lt := by simp [start, path, BenchPath.labellings]
  apart := Nat.zero_ne_one
  filled g _ x := by
    rw [bindings_start, Table.get?_empty]
    exact (Option.some_ne_none none).symm
  control := List.forall_mem_nil _

/-- The path on that bench is the path at the start of a program. -/
theorem world_start : (start edition policy).world 0 0 = ⟨Path.start policy, {}⟩ := by
  have hpatterns : (List.range policy.length).map (start edition policy).pattern = policy := by
    refine List.ext_getElem (by simp) fun j hj hj' => ?_
    rw [List.getElem_map, List.getElem_range]
    exact List.getD_eq_getElem _ _ hj'
  exact congrArg (fun patterns => World.mk { patterns } {}) hpatterns

end Workbench

/-! ## Ways through a program -/

section Ways

variable [SetOrder] (i r : Nat)

/-- An action on a bench. -/
def Action.work : Action → Work Unit
  | .test e => do
    let _ ← Work.evaluate i r e .condition
    let _ ← Work.evaluate i r e .control
    return ()
  | .assign targets value spot => discard (Work.assign i r targets value spot)
  | .eval value => discard (Work.evaluate i r value .value)
  | .stop fault => throw fault

/-- The actions of a way on a bench, one after the other. -/
def Way.work : Way → Work Unit
  | [] => pure ()
  | a :: rest => do
    a.work i r
    Way.work rest

variable {i r} {b : Workbench}

theorem Action.follows (hb : b.Ready .plain i r) (a : Action) :
    Work.Follows i r (Arrives .plain i r b) (a.work i r) a.run b fun _ _ _ => True := by
  have ha : Arrives .plain i r b b := ⟨.refl i r b, hb⟩
  cases a with
  | test e =>
    refine ((Work.follows_evaluate e .condition hb).arriving ha).bind fun _ _ b₁ ha₁ _ => ?_
    refine ((Work.follows_evaluate e .control ha₁.ready).arriving ha₁).bind fun _ _ b₂ ha₂ _ => ?_
    exact .pure ha₂ trivial
  | assign targets value spot =>
    exact (Work.follows_assign hb targets value spot).bind fun _ _ _ ha₁ _ => .pure ha₁ trivial
  | eval value =>
    exact ((Work.follows_evaluate value .value hb).arriving ha).bind fun _ _ _ ha₁ _ => .pure ha₁ trivial
  | stop fault => exact .throw fault ha

/-- An action leaves a bench on which the next one follows. -/
theorem Way.follows (hb : b.Ready .plain i r) (v : Way) :
    Work.Follows i r (Arrives .plain i r b) (Way.work i r v) (Way.run v) b fun _ _ _ => True := by
  induction v generalizing b with
  | nil => exact .pure ⟨.refl i r b, hb⟩ trivial
  | cons a rest ih =>
    refine (a.follows hb).bind fun _ _ b₁ ha₁ _ => ?_
    exact (ih ha₁.ready).imp (fun _ h => ⟨ha₁.frame.trans h.frame, h.ready⟩) fun _ _ _ _ h => h

/-- A way through a program that starts on a bench, with labels that are shared and changed in place, comes to the same
path and the same report as on values, or to the same fault. -/
theorem way_on_shared_labels (policy : List Pattern) (v : Way) :
    let out := (Way.work 0 0 v).run.run (start .plain policy)
    (Way.run v).run ⟨Path.start policy, {}⟩ = (out.1, out.2.world 0 0) := by
  have hfollows := (Way.follows (ready_start .plain policy) v).weaken fun a c _ _ => show id a = c from rfl
  obtain ⟨hrun, -⟩ := hfollows.run_eq
  rw [world_start, Except.map_id] at hrun
  exact hrun

end Ways

end TaintFlow
