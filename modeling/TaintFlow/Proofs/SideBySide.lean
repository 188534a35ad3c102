import TaintFlow.Proofs.Bridge
import TaintFlow.Proofs.Outcome

/-
Two analyses of a program without loops, side by side over a bridge: from corresponding paths they come to
corresponding paths, in the same order, or stop with the same fault, and on the way both reports record
the same. The editions may differ if the program has no assignment that only one of them reads.
-/
namespace TaintFlow

mutual

/-- Both editions read the statement in the same way: it has no annotated and no augmented assignment. -/
def Stmt.Uniform : Stmt → Prop
  | .annotated _ _ _ => False
  | .augmented _ _ _ _ => False
  | .block body => Stmt.AllUniform body
  | .branch _ body orelse => body.Uniform ∧ orelse.Uniform
  | .loop _ body orelse => body.Uniform ∧ orelse.Uniform
  | .each _ _ body orelse _ => body.Uniform ∧ orelse.Uniform
  | .skip => True
  | .assign _ _ _ => True
  | .eval _ => True
  | .fails _ => True

def Stmt.AllUniform : List Stmt → Prop
  | [] => True
  | s :: rest => s.Uniform ∧ Stmt.AllUniform rest

end

namespace Bridge

variable {b : Bridge}

/-! ## Results of both sides -/

/-- Both sides have related results, or the same fault, and have added the same to their reports. -/
inductive SameResult (b : Bridge) {α β : Type} (R : α → β → Prop) (ρ : Report × Report) :
    Except Fault α × Report → Except Fault β × Report → Prop where
  | ok {x : α} {y : β} {r r' : Report} : R x y → b.Added ρ (r, r') → SameResult b R ρ (.ok x, r) (.ok y, r')
  | error {f : Fault} {r r' : Report} : b.Added ρ (r, r') → SameResult b R ρ (.error f, r) (.error f, r')

theorem SameResult.before {α β : Type} {R : α → β → Prop} {ρ ρ' : Report × Report} {x : Except Fault α × Report}
    {y : Except Fault β × Report} (h : b.SameResult R ρ' x y) (hρ : b.Added ρ ρ') : b.SameResult R ρ x y := by
  cases h with
  | ok hR ha => exact .ok hR (hρ.trans ha)
  | error ha => exact .error (hρ.trans ha)

theorem SameResult.fault {α β : Type} {R : α → β → Prop} {ρ : Report × Report} {x : Except Fault α × Report}
    {y : Except Fault β × Report} (h : b.SameResult R ρ x y) (f : Fault) : x.1 = .error f ↔ y.1 = .error f := by
  cases h with
  | ok _ _ => simp
  | error _ => simp

theorem SameResult.added {α β : Type} {R : α → β → Prop} {ρ : Report × Report} {x : Except Fault α × Report}
    {y : Except Fault β × Report} (h : b.SameResult R ρ x y) : b.Added ρ (x.2, y.2) := by
  cases h with
  | ok _ ha => exact ha
  | error ha => exact ha

theorem SameResult.chain {α β γ δ : Type} {R : α → β → Prop} {S : γ → δ → Prop} {ρ : Report × Report}
    {x : Except Fault α × Report} {y : Except Fault β × Report} {f : α → Report → Except Fault γ × Report}
    {g : β → Report → Except Fault δ × Report} (h : b.SameResult R ρ x y)
    (hfg : ∀ u v r r', R u v → b.SameResult S (r, r') (f u r) (g v r')) :
    b.SameResult S ρ (Analysis.chain x f) (Analysis.chain y g) := by
  cases h with
  | ok hR ha => exact (hfg _ _ _ _ hR).before ha
  | error ha => exact .error ha

theorem sameResult_of_runs [SetOrder] {step step' : Eval Unit} (h : ∀ σ, b.coupling.Runs σ Coupling.Any step step')
    {p q : Path} (hpq : b.Twin p q) (r r' : Report) :
    b.SameResult b.Twin (r, r') (step.outcome p r) (step'.outcome q r') := by
  have h := h (⟨p, r⟩, ⟨q, r'⟩) hpq
  unfold Eval.outcome
  dsimp only at h
  generalize step.run ⟨p, r⟩ = x at h ⊢
  generalize step'.run ⟨q, r'⟩ = y at h ⊢
  cases h with
  | ok _ htwin hadded => exact .ok htwin hadded
  | error _ hadded => exact .error hadded

/-! ## Analyses of both sides -/

/-- The analyses come from corresponding paths to corresponding paths. -/
def Abreast [SetOrder] (b : Bridge) (a a' : Analysis) : Prop :=
  ∀ paths paths', List.Forall₂ b.Twin paths paths' → ∀ r r',
    b.SameResult (List.Forall₂ b.Twin) (r, r') (a.outcome paths r) (a'.outcome paths' r')

theorem abreast_idle [SetOrder] : b.Abreast Run.idle Run.idle := fun _ _ hp _ _ => .ok hp (added_refl _)

theorem Abreast.andThen [SetOrder] {a a' c c' : Analysis} (ha : b.Abreast a a') (hc : b.Abreast c c') :
    b.Abreast (fun paths report => (a paths report).andThen c) fun paths report => (a' paths report).andThen c' := by
  intro paths paths' hp r r'
  rw [Analysis.outcome_andThen, Analysis.outcome_andThen]
  exact (ha paths paths' hp r r').chain fun out out' r r' hout => hc out out' hout r r'

theorem abreast_onEach [SetOrder] {step step' : Eval Unit} (h : ∀ σ, b.coupling.Runs σ Coupling.Any step step') :
    b.Abreast (Analysis.onEach step) (Analysis.onEach step') := by
  intro paths paths' hp
  induction hp with
  | nil => exact fun _ _ => .ok .nil (added_refl _)
  | cons hpq _ ih =>
    intro r r'
    rw [Analysis.outcome_onEach_cons, Analysis.outcome_onEach_cons]
    refine (sameResult_of_runs h hpq r r').chain fun u v r r' huv => ?_
    exact (ih r r').chain fun out out' r r' hout => .ok (.cons huv hout) (added_refl _)

theorem Twin.leave [SetOrder] (hb : b.Lawful) {p q : Path} (h : b.Twin p q) :
    b.Twin (Analysis.leave p) (Analysis.leave q) :=
  h.pop.shift hb (-1)

theorem abreast_fork [SetOrder] (hb : b.Lawful) {enter enter' : Eval Unit} {body body' orelse orelse' : Analysis}
    (he : ∀ σ, b.coupling.Runs σ Coupling.Any enter enter') (hbody : b.Abreast body body')
    (horelse : b.Abreast orelse orelse') {paths paths' : List Path} (hp : List.Forall₂ b.Twin paths paths') :
    ∀ {done done' new new' : List Path}, List.Forall₂ b.Twin new new' → ∀ r r',
      b.SameResult (List.Forall₂ b.Twin) (r, r') ((Analysis.fork enter body orelse done new).outcome paths r)
        ((Analysis.fork enter' body' orelse' done' new').outcome paths' r') := by
  induction hp with
  | nil => exact fun hn r r' => .ok hn (added_refl _)
  | cons hpq _ ih =>
    intro done done' new new' hn r r'
    rw [Analysis.outcome_fork_cons, Analysis.outcome_fork_cons]
    refine (sameResult_of_runs he (hpq.shift hb 1) r r').chain fun u v r r' huv => ?_
    have hcopy : List.Forall₂ b.Twin [u.fork] [v.fork] := .cons (huv.fork hb) .nil
    refine (hbody _ _ hcopy r r').chain fun yes yes' r r' hyes => ?_
    refine (horelse _ _ hcopy r r').chain fun no no' r r' hno => ih ?_ r r'
    refine List.forall₂_map_left_iff.2 (List.forall₂_map_right_iff.2 ?_)
    exact (List.rel_append (List.rel_append hn hyes) hno).imp fun _ _ h => h.leave hb

theorem abreast_assign [SetOrder] (hb : b.Lawful) (targets : List Target) (value : Expr) (spot : Spot) :
    b.Abreast (Analysis.onEach do discard (Eval.assign b.left.edition targets value spot))
      (Analysis.onEach do discard (Eval.assign b.right.edition targets value spot)) :=
  abreast_onEach fun σ => (Coupling.runs_assign (hb.writes fun _ => True) (fun _ _ => trivial) σ).discard

mutual

/-- Analyses of a program without loops go on side by side. -/
theorem abreast_analyse [SetOrder] (hb : b.Lawful) (limit limit' : Nat) : ∀ s : Stmt, s.LoopFree →
    b.left.edition = b.right.edition ∨ s.Uniform →
    b.Abreast (s.analyse b.left.edition limit) (s.analyse b.right.edition limit')
  | .skip, _, _ => by
    rw [Stmt.analyse.eq_def, Stmt.analyse.eq_def]
    exact abreast_idle
  | .block body, hl, hu => by
    rw [Stmt.analyse.eq_def, Stmt.analyse.eq_def]
    exact abreast_analyseBlock hb limit limit' body hl hu
  | .assign targets value spot, _, _ => by
    rw [Stmt.analyse.eq_def, Stmt.analyse.eq_def]
    exact abreast_assign hb targets value spot
  | .annotated target value spot, _, hu => by
    rw [Stmt.analyse.eq_def, Stmt.analyse.eq_def]
    have h := abreast_assign hb [target] value { line := spot.line }
    rw [hu.resolve_right id] at h ⊢
    generalize b.right.edition = edition at h ⊢
    cases edition
    · exact abreast_idle
    · exact h
  | .augmented target current value spot, _, hu => by
    rw [Stmt.analyse.eq_def, Stmt.analyse.eq_def]
    have h := abreast_assign hb [target] (.binary current value) { line := spot.line }
    rw [hu.resolve_right id] at h ⊢
    generalize b.right.edition = edition at h ⊢
    cases edition
    · exact abreast_idle
    · exact h
  | .eval value, _, _ => by
    rw [Stmt.analyse.eq_def, Stmt.analyse.eq_def]
    exact abreast_onEach fun σ =>
      (Coupling.runs_evaluate (hb.writes fun _ => True).toLawful value (fun _ _ => trivial) .value σ).discard
  | .branch test body orelse, hl, hu => by
    rw [Stmt.analyse.eq_def, Stmt.analyse.eq_def]
    have hbody := abreast_analyse hb limit limit' body hl.1 (hu.imp id And.left)
    have horelse := abreast_analyse hb limit limit' orelse hl.2 (hu.imp id And.right)
    intro paths paths' hp r r'
    exact abreast_fork hb (Coupling.runs_enterTest (hb.writes fun _ => True) fun _ _ => trivial) hbody horelse hp
      .nil r r'
  | .fails fault, _, _ => by
    rw [Stmt.analyse.eq_def, Stmt.analyse.eq_def]
    exact fun _ _ _ _ _ => .error (added_refl _)

theorem abreast_analyseBlock [SetOrder] (hb : b.Lawful) (limit limit' : Nat) : ∀ body : List Stmt,
    Stmt.AllLoopFree body → b.left.edition = b.right.edition ∨ Stmt.AllUniform body →
    b.Abreast (Stmt.analyseBlock b.left.edition limit body) (Stmt.analyseBlock b.right.edition limit' body)
  | [], _, _ => by
    rw [Stmt.analyseBlock.eq_def, Stmt.analyseBlock.eq_def]
    exact abreast_idle
  | s :: rest, hl, hu => by
    rw [Stmt.analyseBlock.eq_def, Stmt.analyseBlock.eq_def]
    exact (abreast_analyse hb limit limit' s hl.1 (hu.imp id And.left)).andThen
      (abreast_analyseBlock hb limit limit' rest hl.2 (hu.imp id And.right))

end

end Bridge

end TaintFlow
