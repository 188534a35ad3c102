import TaintFlow.Proofs.Custody
import TaintFlow.Proofs.Reached
import TaintFlow.Session

/-
Programs without branches and loops. Control labels stay empty on them: nothing is ever put on the control stack, and
an expression is read in the control context only after it was read as a value, when all variables that it reads
count as assigned. So what is flagged as implicit has no flow, and all that a report holds is explicit.
-/
namespace TaintFlow

open Listing

/-! ## Labels without flows -/

namespace MultiLabel

variable {π : Type} {a b : MultiLabel π}

/-- No pattern has a flow. -/
def Silent (m : MultiLabel π) : Prop := ∀ name t, m.entries.get? name = some t → t.label = {}

theorem Silent.combine [SetOrder] (ha : a.Silent) (hb : b.Silent) : (a.combine b).Silent := by
  intro name t ht
  rw [get?_combine] at ht
  cases hu : a.entries.get? name with
  | none =>
    rw [hu, Option.merge_none_left] at ht
    exact hb name t ht
  | some u =>
    cases hv : b.entries.get? name with
    | none =>
      rw [hu, hv, Option.merge_none_right] at ht
      exact ha name t (hu.trans ht)
    | some v =>
      rw [hu, hv] at ht
      cases ht
      rw [join, ha name u hu, hb name v hv]
      rfl

theorem Silent.addSanitizer [SetOrder] (ha : a.Silent) (view : π → Pattern) (function : String) (line : Int) :
    (a.addSanitizer view function line).Silent := by
  intro name t ht
  rw [get?_addSanitizer] at ht
  obtain ⟨u, hu, rfl⟩ := Option.map_eq_some_iff.1 ht
  have hlabel := ha name u hu
  split
  · rw [hlabel]
    rfl
  · exact hlabel

theorem Silent.not_has (ha : a.Silent) (name s : String) (f : Flow) : ¬ a.Has name s f := by
  rintro ⟨t, ht, hf⟩
  rw [ha name t ht] at hf
  exact Label.holds_empty s f hf

end MultiLabel

/-! ## Paths outside of conditions -/

namespace Path

/-- The path is under no condition, and conditions left nothing on its variables. -/
structure Calm (p : Path) : Prop where
  control : p.control = []
  left : ∀ x m, p.controlLabels.get? x = some m → m.Silent

variable {p : Path}

theorem silent_clean (p : Path) : p.clean.Silent := by
  intro name t ht
  obtain ⟨i, -, rfl, -⟩ := get?_clean ht
  rfl

theorem calm_start (patterns : List Pattern) : (Path.start patterns).Calm where
  control := rfl
  left := fun _ _ h => by cases h

theorem Calm.silent_currentControl [SetOrder] (hp : p.Calm) : p.currentControl.Silent := by
  unfold currentControl
  rw [hp.control]
  exact p.silent_clean

theorem Calm.silent_before [SetOrder] (hp : p.Calm) (name : String) : (p.before name).Silent := by
  unfold before
  cases hm : p.controlLabels.get? name with
  | none => exact hp.silent_currentControl
  | some m => exact (hp.left name m hm).combine hp.silent_currentControl

theorem silent_sanitize [SetOrder] {m : Taint} (hm : m.Silent) (function : String) (line : Int) :
    (p.sanitize m function line).Silent := by
  unfold sanitize
  split
  · exact hm.addSanitizer p.view function line
  · exact hm

theorem Calm.assign (hp : p.Calm) (x : String) (m : Taint) {k : Taint} (hk : k.Silent) :
    { p with labels := p.labels.update x m, controlLabels := p.controlLabels.update x k }.Calm where
  control := hp.control
  left := fun y n hn => by
    rcases Labelling.get?_update_some hn with rfl | hn
    · exact hk
    · exact hp.left y n hn

end Path

/-- All that the report holds is explicit. -/
def Report.Overt (r : Report) : Prop := ∀ s kind marks, r.Recorded s kind marks → kind = .explicit

/-! ## Steps -/

/-- The names that an expression leaves assigned when it was read in the context. -/
def Context.settled (context : Context) (names : List String) : List String :=
  if context = .value then names else []

theorem Context.settled_append (context : Context) (a b : List String) :
    context.settled (a ++ b) = context.settled a ++ context.settled b := by
  unfold settled
  split <;> rfl

theorem Context.mem_settled {context : Context} {names : List String} {x : String} :
    x ∈ context.settled names ↔ context = .value ∧ x ∈ names := by
  unfold settled
  split <;> simp_all

namespace Eval

variable {edition : Edition} {K names more : List String} {context : Context}

/-- The path is under no condition, and the report holds nothing implicit. -/
def Quiet (w : World) : Prop := w.path.Calm ∧ w.report.Overt

/-- The variables are assigned. -/
def Assigned (K : List String) (w : World) : Prop := ∀ x ∈ K, x ∈ w.path.initialized

/-- The outcome of reading expressions: the variables `K` are still assigned, and so are the variables `names` that were
read as values; in the control context there are no flows. -/
def Settled (K : List String) (context : Context) (names : List String) (m : Taint) (w : World) : Prop :=
  Assigned (K ++ context.settled names) w ∧ (context = .control → m.Silent)

theorem Settled.append {m : Taint} {w : World} (h : Settled (K ++ context.settled names) context more m w) :
    Settled K context (names ++ more) m w := by
  unfold Settled at h ⊢
  rwa [Context.settled_append, ← List.append_assoc]

theorem settled_nil {m : Taint} {w : World} (hK : Assigned K w) (hm : context = .control → m.Silent) :
    Settled K context [] m w := by
  refine ⟨fun x hx => hK x ?_, hm⟩
  exact (List.mem_append.1 hx).resolve_right fun hx => by cases (Context.mem_settled.1 hx).2

theorem assigned_clean (K : List String) :
    Secures Quiet (Assigned K) clean fun m w => Assigned K w ∧ m.Silent :=
  fun w hw hK => ⟨hw, fun _ ha => by cases ha; exact ⟨hK, w.path.silent_clean⟩⟩

/-- What is flagged as explicit may have flows; nothing else may. -/
theorem quiet_flag [SetOrder] {x : String} {spot : Spot} {m : Taint} {kind : FlowKind}
    (h : kind = .explicit ∨ m.Silent) :
    (flag edition x spot m kind).Preserves Quiet := by
  intro w hw _
  refine ⟨⟨path_flag edition x spot m kind w ▸ hw.1, fun s kind' marks hs => ?_⟩, fun _ _ => trivial⟩
  rcases recorded_flag_cases hs with hs | ⟨i, f, -, -, hf, -, -, -, -, -, rfl, -⟩
  · exact hw.2 s kind' marks hs
  · exact h.resolve_right fun hm => hm.not_has _ _ f hf

theorem assigned_flag [SetOrder] {x : String} {spot : Spot} {m : Taint} {kind : FlowKind}
    (h : kind = .explicit ∨ m.Silent) :
    Secures Quiet (Assigned K) (flag edition x spot m kind) fun _ => Assigned K := by
  intro w hw hK
  refine ⟨(quiet_flag h w hw trivial).1, fun _ _ y hy => ?_⟩
  rw [path_flag]
  exact hK y hy

/-- A variable is read in the control context only if it is assigned; read as a value, it is so afterwards. -/
theorem settled_readName [SetOrder] {id : String} {spot : Spot} (hc : context = .control → id ∈ K) :
    Secures Quiet (Assigned K) (readName edition id spot context) (Settled K context [id]) := by
  intro w hw hK
  unfold readName
  rw [run_path_bind]
  split
  · rename_i hnew
    -- the variable becomes a source: in a value it is marked as assigned, in a test it is not
    cases context with
    | control => exact absurd (hK id (hc rfl)) hnew
    | value =>
      refine ⟨⟨{ hw.1 with }, hw.2⟩, fun _ _ => ⟨fun x hx => mem_adjoin.2 ?_, fun h => by cases h⟩⟩
      exact (List.mem_append.1 hx).imp (hK x) List.mem_singleton.1
    | condition | other =>
      refine ⟨⟨{ hw.1 with }, hw.2⟩, fun _ _ => ⟨fun x hx => hK x ?_, fun h => by cases h⟩⟩
      exact (List.mem_append.1 hx).resolve_right List.not_mem_nil
  · rename_i hold
    have hassigned : Assigned (K ++ context.settled [id]) w := by
      intro x hx
      rcases List.mem_append.1 hx with hx | hx
      · exact hK x hx
      · rw [List.mem_singleton.1 (Context.mem_settled.1 hx).2]
        exact not_not.1 hold
    split
    · refine ⟨hw, fun m hm => ⟨hassigned, fun _ => ?_⟩⟩
      cases hm
      cases hm : w.path.controlLabels.get? id with
      | none => exact w.path.silent_clean
      | some m => exact hw.1.left id m hm
    · rename_i hvalue
      rw [run_readAssigned]
      dsimp only
      split
      · exact ⟨hw, fun _ _ => ⟨hassigned, fun h => absurd h hvalue⟩⟩
      · exact ⟨⟨{ hw.1 with }, hw.2⟩, fun _ _ => ⟨hassigned, fun h => absurd h hvalue⟩⟩

theorem assigned_readReceiver {receiver : String} {spot : Spot} :
    Secures Quiet (Assigned K) (readReceiver edition receiver spot) fun _ => Assigned K := by
  intro w hw hK
  unfold readReceiver
  rw [run_path_bind]
  split
  · exact ⟨⟨{ hw.1 with }, hw.2⟩, fun _ _ x hx => mem_adjoin.2 (.inl (hK x hx))⟩
  · exact ⟨hw, fun _ _ => hK⟩

theorem assigned_readAttribute [SetOrder] {m : Taint} {attr : String} {spot : Spot} :
    Secures Quiet (Assigned K) (readAttribute edition m attr spot) fun _ => Assigned K := by
  intro w hw hK
  rw [run_readAttribute]
  exact ⟨hw, fun _ _ => hK⟩

theorem assigned_flagContainer [SetOrder] {container : Expr} {spot : Spot} {m : Taint} :
    Secures Quiet (Assigned K) (flagContainer edition container spot m) fun _ => Assigned K := by
  unfold flagContainer
  split
  · exact assigned_flag (.inl rfl)
  · exact .throw _
  · exact .pure fun _ _ hK => hK

/-- The control label of a result is flagged, but it has no flows. -/
theorem assigned_applyFunction [SetOrder] {function : String} {spot : Spot} {m control : Taint} (hm : control.Silent) :
    Secures Quiet (Assigned K) (applyFunction edition function spot m control) fun r w =>
      Assigned K w ∧ r.2.Silent := by
  intro w hw hK
  rw [run_applyFunction]
  have hsilent := Path.silent_sanitize (p := w.path) (hm.combine hw.1.silent_currentControl) function spot.line
  generalize w.path.sanitize (w.path.addKnownSource edition m function spot) function spot.line = m'
  generalize w.path.sanitize (control.combine w.path.currentControl) function spot.line = k at hsilent
  have hflags : Secures Quiet (Assigned K)
      (do flag edition function spot m' .explicit; flag edition function spot k .implicit; return (m', k))
      fun r w => Assigned K w ∧ r.2.Silent :=
    (assigned_flag (.inl rfl)).bind fun _ => (assigned_flag (.inr hsilent)).bind fun _ =>
      .pure fun _ _ hK => ⟨hK, hsilent⟩
  exact hflags w hw hK

end Eval

mutual

/-- Reading an expression as a value leaves the variables that it reads assigned; then, in the control context, it has
no flows. -/
theorem Expr.settled_evaluate [SetOrder] {edition : Edition} : ∀ (e : Expr) {context : Context} {K : List String},
    (context = .control → e.tested ⊆ K) →
      Eval.Secures Eval.Quiet (Eval.Assigned K) (e.evaluate edition context) (Eval.Settled K context e.tested)
  | .name id spot, context, K, hc => by
    rw [Expr.evaluate.eq_def]
    exact Eval.settled_readName fun h => hc h (List.mem_singleton_self id)
  | .attribute base attr spot, context, K, hc => by
    rw [Expr.evaluate.eq_def]
    refine (Eval.assigned_clean K).bind fun m => .assume fun hm => ?_
    refine (Expr.settled_evaluate base hc).bind fun m' => .assume fun hm' => ?_
    dsimp only
    split
    · rename_i hvalue
      exact Eval.assigned_readAttribute.imp fun _ _ hK => ⟨hK, fun h => by cases hvalue.symm.trans h⟩
    · exact .pure fun _ _ hK => ⟨hK, fun h => hm.combine (hm' h)⟩
  | .subscript container index spot, context, K, hc => by
    rw [Expr.evaluate.eq_def]
    simp only [Expr.tested, List.append_subset] at hc ⊢
    refine (Eval.assigned_clean K).bind fun m => .assume fun hm => ?_
    refine (Expr.settled_evaluate container fun h => (hc h).1).bind fun m' => .assume fun hm' => ?_
    refine (Expr.settled_evaluate index fun h => List.subset_append_of_subset_left _ (hc h).2).bind fun m'' =>
      .assume fun hm'' => ?_
    have hsilent : context = .control → ((m.combine m').combine m'').Silent :=
      fun h => (hm.combine (hm' h)).combine (hm'' h)
    split
    · exact Eval.assigned_flagContainer.bind fun _ => .pure fun _ _ hK => Eval.Settled.append ⟨hK, hsilent⟩
    · exact .pure fun _ _ hK => Eval.Settled.append ⟨hK, hsilent⟩
  | .binary left right, context, K, hc => by
    rw [Expr.evaluate.eq_def]
    simp only [Expr.tested, List.append_subset] at hc ⊢
    refine (Eval.assigned_clean K).bind fun m => .assume fun hm => ?_
    refine (Expr.settled_evaluate left fun h => (hc h).1).bind fun m' => .assume fun hm' => ?_
    refine (Expr.settled_evaluate right fun h => List.subset_append_of_subset_left _ (hc h).2).bind fun m'' =>
      .assume fun hm'' => ?_
    exact .pure fun _ _ hK => Eval.Settled.append ⟨hK, fun h => (hm.combine (hm' h)).combine (hm'' h)⟩
  | .call receiver function args spot, context, K, _ => by
    rw [Expr.evaluate.eq_def]
    -- a call reads its arguments in both contexts itself, so none of their variables is asked for
    refine Eval.assigned_readReceiver.bind fun m => (Eval.assigned_clean K).bind fun c => .assume fun hc => ?_
    refine (Expr.assigned_evaluateArgs args m hc).bind fun r => .assume fun hr => ?_
    refine (Eval.assigned_applyFunction hr).bind fun r => .assume fun hr => .pure fun w _ hK => ?_
    refine Eval.settled_nil hK fun h => ?_
    rw [if_pos h]
    exact hr
  | .compare left rest, context, K, hc => by
    rw [Expr.evaluate.eq_def]
    simp only [Expr.tested, List.append_subset] at hc ⊢
    refine (Expr.settled_evaluate left fun h => (hc h).1).bind fun m => .assume fun hm => ?_
    exact (Expr.settled_evaluateAll rest hm fun h => List.subset_append_of_subset_left _ (hc h).2).imp
      fun _ _ h => h.append
  | .unary operand, context, K, hc => by
    rw [Expr.evaluate.eq_def]
    exact Expr.settled_evaluate operand hc
  | .boolean values, context, K, hc => by
    rw [Expr.evaluate.eq_def]
    refine (Eval.assigned_clean K).bind fun m => .assume fun hm => ?_
    exact Expr.settled_evaluateAll values (fun _ => hm) hc
  | .inert, context, K, _ | .missing, context, K, _ => by
    rw [Expr.evaluate.eq_def]
    exact (Eval.assigned_clean K).imp fun _ _ h => Eval.settled_nil h.1 fun _ => h.2
  | .fails fault, context, K, _ => by
    rw [Expr.evaluate.eq_def]
    exact .throw fault

/-- An argument is read as a value before it is read in the control context. -/
theorem Expr.assigned_evaluateArgs [SetOrder] {edition : Edition} : ∀ (args : List Expr) {K : List String} (m : Taint)
    {control : Taint}, control.Silent →
      Eval.Secures Eval.Quiet (Eval.Assigned K) (Expr.evaluateArgs edition args m control) fun r w =>
        Eval.Assigned K w ∧ r.2.Silent
  | [], K, m, control, hm => by
    rw [Expr.evaluateArgs.eq_def]
    exact .pure fun _ _ hK => ⟨hK, hm⟩
  | arg :: rest, K, m, control, hm => by
    rw [Expr.evaluateArgs.eq_def]
    refine (Expr.settled_evaluate arg fun h => by cases h).bind fun m' => .assume fun _ => ?_
    refine (Expr.settled_evaluate arg fun _ => List.subset_append_right _ _).bind fun k => .assume fun hk => ?_
    exact (Expr.assigned_evaluateArgs rest _ (hm.combine (hk rfl))).imp fun _ _ h =>
      ⟨fun x hx => h.1 x (List.mem_append_left _ (List.mem_append_left _ hx)), h.2⟩

theorem Expr.settled_evaluateAll [SetOrder] {edition : Edition} :
    ∀ (operands : List Expr) {context : Context} {K : List String} {m : Taint},
    (context = .control → m.Silent) → (context = .control → Expr.allTested operands ⊆ K) →
      Eval.Secures Eval.Quiet (Eval.Assigned K) (Expr.evaluateAll edition context operands m)
        (Eval.Settled K context (Expr.allTested operands))
  | [], context, K, m, hm, _ => by
    rw [Expr.evaluateAll.eq_def]
    exact .pure fun _ _ hK => Eval.settled_nil hK hm
  | operand :: rest, context, K, m, hm, hc => by
    rw [Expr.evaluateAll.eq_def]
    simp only [Expr.allTested, List.append_subset] at hc ⊢
    refine (Expr.settled_evaluate operand fun h => (hc h).1).bind fun m' => .assume fun hm' => ?_
    exact (Expr.settled_evaluateAll rest (fun h => (hm h).combine (hm' h)) fun h =>
      List.subset_append_of_subset_left _ (hc h).2).imp fun _ _ h => h.append

end

namespace Eval

variable {edition : Edition}

/-- A label without flows goes to the control label of the name. -/
theorem quiet_assignName [SetOrder] (spot : Spot) (m : Taint) {control : Taint} (hm : control.Silent) (name : String) :
    Secures Quiet (fun _ => True) (assignName edition spot m control name) fun k _ => True ∧ k.Silent := by
  refine .path fun w hw _ => ?_
  have hcontrol := (hw.1.silent_before name).combine hm
  refine (quiet_flag (.inl rfl)).secures.bind fun _ => ?_
  refine (quiet_flag (.inr hcontrol)).bind fun _ => .path fun v hv _ => ?_
  refine Secures.bind (Q := fun _ _ => True)
    (secures_setPath fun u hu _ => ⟨⟨hv.1.assign name m hcontrol, hu.2⟩, trivial⟩) fun _ => ?_
  exact .pure fun _ _ _ => ⟨trivial, hcontrol⟩

theorem quiet_assignNames [SetOrder] (spot : Spot) (m : Taint) : ∀ (names : List String) {control : Taint},
    control.Silent → (assignNames edition spot m names control).Preserves Quiet
  | [], _, _ => preserves_pure _
  | name :: rest, _, hm => (quiet_assignName spot m hm name).bind fun _ => .assume fun hk =>
    quiet_assignNames spot m rest hk

theorem quiet_evaluate [SetOrder] (e : Expr) :
    Secures Quiet (fun _ => True) (e.evaluate edition .value) fun _ => Assigned e.tested := by
  intro w hw _
  have hread : Secures Quiet (Assigned []) (e.evaluate edition .value) (Settled [] .value e.tested) :=
    e.settled_evaluate fun h => by cases h
  obtain ⟨hv, hm⟩ := hread w hw (List.forall_mem_nil _)
  exact ⟨hv, fun m h => (hm m h).1⟩

/-- The value of an assignment is read as a value before it is read in the control context. -/
theorem quiet_assign [SetOrder] (targets : List Target) (value : Expr) (spot : Spot) :
    (assign edition targets value spot).Preserves Quiet := by
  have hmark : ∀ w x, Quiet w → Quiet { w with path := w.path.markInitialized x } := fun w x hw => ⟨{ hw.1 with }, hw.2⟩
  have hread : ∀ e : Expr, (∀ site ∈ e.sites, True) → (e.evaluate edition .value).Preserves Quiet :=
    fun e _ => (quiet_evaluate e).preserves
  refine preserves_clean.bind fun c => ?_
  refine (preserves_takeTargets hmark hread targets c [] fun _ (_ : _ ∈ targets.flatMap (·.sites spot)) => trivial).bind
    fun taken => ?_
  refine (quiet_evaluate value).bind fun m => (assigned_clean _).bind fun c => .assume fun hc => ?_
  refine (value.settled_evaluate fun _ => List.Subset.refl _).bind fun k => .assume fun hk => ?_
  exact (quiet_assignNames spot _ taken.2 (hc.combine (hk rfl))).secures.bind fun _ => preserves_pure _

end Eval

/-! ## Statements -/

theorem stepsUphold_calm [SetOrder] (edition : Edition) :
    StepsUphold edition Path.Calm Report.Overt (fun _ => True) False where
  evaluates {e} _ := (Eval.quiet_evaluate e).preserves.discard.upholds fun _ => Iff.rfl
  assigns {targets value spot} _ := (Eval.quiet_assign targets value spot).discard.upholds fun _ => Iff.rfl
  tests := False.elim
  items := False.elim
  inherited := False.elim

/-- A program without branches and loops reports explicit flows only, and leaves no flow on the control label of a
variable, whether it ends or a fault stops it. -/
theorem straight_program_reports_explicit_flows_only [SetOrder] (edition : Edition) (limit : Nat)
    (patterns : List Pattern) {program : Stmt} (h : program.Straight) :
    (∀ s kind marks, (analyseProgram edition limit patterns program).2.report.Recorded s kind marks →
      kind = .explicit) ∧
    ∀ p ∈ (analyseProgram edition limit patterns program).2.paths, ∀ x m, p.controlLabels.get? x = some m →
      ∀ name t, m.entries.get? name = some t → t.label = {} := by
  obtain ⟨-, hgiven, hpaths, hreport⟩ := (stepsUphold_calm edition).upholds_analyse limit program (fun _ _ => trivial)
    (.inr h) [Path.start patterns] {} (List.forall_mem_singleton.2 (Path.calm_start patterns))
    fun s kind marks hs => absurd hs (Report.not_recorded_empty s kind marks)
  unfold analyseProgram Session.run Session.start
  dsimp only at hgiven hpaths hreport ⊢
  cases hout : (program.analyse edition limit [Path.start patterns] {}).paths? with
  | error fault => exact ⟨hreport, fun p hp => (hgiven p hp).left⟩
  | ok out => exact ⟨hreport, fun p hp => (hpaths out hout p hp).left⟩

/-- In `x = esc(o.get(y))`, `z = x + u` and `sink(z)` explicit flows reach two sinks, and `x` and `z` have control
labels without flows. -/
theorem straight_program_of_two_sinks_reports_explicit_flows :
    let a : Pattern :=
      { name := "A", sources := ["get"], sinks := ["sink", "z"], modes := [("esc", .text "show")], implicit := true }
    let get : Expr := .call "o" "get" [.name "y" { line := 1 }] { line := 1 }
    let program : Stmt := .block [
      .assign [.name "x"] (.call "" "esc" [get] { line := 1 }) { line := 1 },
      .block [.assign [.name "z"] (.binary (.name "x" { line := 2 }) (.name "u" { line := 2 })) { line := 2 }],
      .eval (.call "" "sink" [.name "z" { line := 3 }] { line := 3 })]
    let session := (analyseProgram .plain 5 [a] program).2
    session.report.Recorded ⟨"A", "y", { line := 1 }, "z", { line := 2 }⟩ .explicit [.sanitizer "esc" 1] ∧
      session.report.Recorded ⟨"A", "u", { line := 2 }, "sink", { line := 3 }⟩ .explicit [] ∧
      (session.paths.map fun p => p.controlLabels.table.keys) = [["x", "z"]] ∧
      (∀ s kind marks, session.report.Recorded s kind marks → kind = .explicit) ∧
      ∀ p ∈ session.paths, ∀ x m, p.controlLabels.get? x = some m →
        ∀ name t, m.entries.get? name = some t → t.label = {} := by
  intro a get program session
  have hstraight : program.Straight := ⟨trivial, ⟨trivial, trivial⟩, trivial, trivial⟩
  exact ⟨Report.recorded_iff.2 (by decide +kernel), Report.recorded_iff.2 (by decide +kernel), by decide +kernel,
    straight_program_reports_explicit_flows_only .plain 5 [a] hstraight⟩

end TaintFlow
