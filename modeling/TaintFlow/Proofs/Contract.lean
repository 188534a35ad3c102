import TaintFlow.Proofs.Coupling

/-
Contracts of steps. A contract has an invariant of worlds, which the step keeps also when a fault stops it, a condition
on the world in which the step is started, and a condition on its result and the world it is left in. There is one rule
for each way to build a step.
-/
namespace TaintFlow

namespace Eval

variable {α β : Type} {I P : World → Prop} {Q Q' : α → World → Prop} {R : β → World → Prop}

/-- Started where `I` and `P` hold, the step keeps `I`, also when it faults, and its result satisfies `Q`. -/
def Secures (I P : World → Prop) (x : Eval α) (Q : α → World → Prop) : Prop :=
  ∀ w, I w → P w → I (x.run w).2 ∧ ∀ a, (x.run w).1 = .ok a → Q a (x.run w).2

theorem Secures.pure {a : α} (h : ∀ w, I w → P w → Q a w) : Secures I P (pure a) Q := by
  intro w hw hp
  refine ⟨hw, fun b hb => ?_⟩
  cases hb
  exact h w hw hp

theorem Secures.throw (fault : Fault) : Secures I P (throw fault) Q :=
  fun _ hw _ => ⟨hw, fun _ ha => by cases ha⟩

theorem Secures.bind {x : Eval α} {f : α → Eval β} (hx : Secures I P x Q) (hf : ∀ a, Secures I (Q a) (f a) R) :
    Secures I P (x >>= f) R := by
  intro w hw hp
  rw [run_bind]
  obtain ⟨hv, hq⟩ := hx w hw hp
  generalize x.run w = r at hv hq
  obtain ⟨r, v⟩ := r
  cases r with
  | ok a => exact hf a v hv (hq a rfl)
  | error fault => exact ⟨hv, fun _ ha => by cases ha⟩

theorem Secures.imp {x : Eval α} (hx : Secures I P x Q) (h : ∀ a w, Q a w → Q' a w) : Secures I P x Q' := by
  intro w hw hp
  obtain ⟨hv, hq⟩ := hx w hw hp
  exact ⟨hv, fun a ha => h a _ (hq a ha)⟩

/-- A part of the condition that is not about the world is known to the step. -/
theorem Secures.assume {φ : Prop} {x : Eval α} (hx : φ → Secures I P x Q) : Secures I (fun w => P w ∧ φ) x Q :=
  fun w hw hp => hx hp.2 w hw hp.1

/-- What comes after a look at the path may know the world it is in. -/
theorem Secures.path {f : Path → Eval β} (h : ∀ w, I w → P w → Secures I (· = w) (f w.path) R) :
    Secures I P (Eval.path >>= f) R :=
  fun w hw hp => h w hw hp w hw rfl

theorem secures_setPath {p : Path} {Q : Unit → World → Prop}
    (h : ∀ w, I w → P w → I { w with path := p } ∧ Q () { w with path := p }) : Secures I P (setPath p) Q :=
  fun w hw hp => ⟨(h w hw hp).1, fun _ _ => (h w hw hp).2⟩

/-- Flagging leaves what is known about the path as it is. -/
theorem secures_flag [SetOrder] (edition : Edition) (sink : String) (spot : Spot) (m : Taint) (kind : FlowKind)
    {S T : Path → Prop} :
    Secures (fun w => S w.path) (fun w => T w.path) (flag edition sink spot m kind) fun _ w => T w.path := by
  intro w hs ht
  dsimp only
  rw [path_flag]
  exact ⟨hs, fun _ _ => ht⟩

/-! ## Steps that keep an invariant -/

/-- The step keeps the invariant, also when it faults. -/
def Preserves (I : World → Prop) (x : Eval α) : Prop := Secures I (fun _ => True) x fun _ _ => True

theorem Secures.preserves {x : Eval α} (hx : Secures I (fun _ => True) x Q) : x.Preserves I :=
  hx.imp fun _ _ _ => trivial

theorem Preserves.secures {x : Eval α} (hx : x.Preserves I) : Secures I P x fun _ _ => True :=
  fun w hw _ => hx w hw trivial

theorem preserves_pure (a : α) : Preserves I (Pure.pure a) := .pure fun _ _ _ => trivial

theorem preserves_clean : Preserves I clean := fun _ hw _ => ⟨hw, fun _ _ => trivial⟩

theorem preserves_setPath {f : Path → Path} (h : ∀ w, I w → I { w with path := f w.path }) :
    Preserves I (do setPath (f (← Eval.path))) :=
  fun w hw _ => ⟨h w hw, fun _ _ => trivial⟩

theorem Preserves.discard {x : Eval α} (hx : x.Preserves I) : (discard x).Preserves I :=
  hx.bind fun _ => preserves_pure _

/-! ## Assignments and regions -/

section Assignments

variable [SetOrder] {edition : Edition} {allowed : Site → Prop} {spot : Spot}
  (hmark : ∀ w x, I w → I { w with path := w.path.markInitialized x })
  (hread : ∀ e : Expr, (∀ site ∈ e.sites, allowed site) → (e.evaluate edition .value).Preserves I)

omit [SetOrder] in
include hmark in
theorem preserves_mark (x : String) {y : Eval α} (hy : y.Preserves I) :
    Preserves I (do setPath ((← Eval.path).markInitialized x); y) :=
  fun w hw _ => hy { w with path := w.path.markInitialized x } (hmark w x hw) trivial

include hmark hread in
/-- Targets are marked as assigned, and parts of containers are read. -/
theorem preserves_takeTarget : ∀ t : Target, (∀ site ∈ t.sites spot, allowed site) →
    (takeTarget edition t).Preserves I
  | .name id, _ => preserves_mark hmark id (preserves_clean.bind fun _ => preserves_pure _)
  | .attribute base attr, _ => preserves_mark hmark attr (preserves_clean.bind fun _ => preserves_pure _)
  | .subscript container whole, ht => by
    refine preserves_clean.bind fun _ => ?_
    refine (hread whole fun site hs => ht site (List.mem_append_right _ hs)).bind fun _ => ?_
    cases container with
    | none => exact preserves_pure _
    | some id => exact preserves_mark hmark id (preserves_pure _)
  | .fails fault, _ => .throw fault

include hmark hread in
theorem preserves_takeTargets : ∀ (targets : List Target) (m : Taint) (names : List String),
    (∀ site ∈ targets.flatMap (·.sites spot), allowed site) → (takeTargets edition targets m names).Preserves I
  | [], _, _, _ => preserves_pure _
  | t :: rest, m, _, ht => by
    rw [List.flatMap_cons, List.forall_mem_append] at ht
    exact (preserves_takeTarget hmark hread t ht.1).bind fun taken => preserves_takeTargets rest _ taken.2 ht.2

end Assignments

section Regions

variable [SetOrder] {edition : Edition} {allowed : Site → Prop}
  (hmark : ∀ w x, I w → I { w with path := w.path.markInitialized x })
  (hread : ∀ (e : Expr) (context : Context), (∀ site ∈ e.sites, allowed site) →
    (e.evaluate edition context).Preserves I)
  (hassign : ∀ spot m control name, (assignName edition spot m control name).Preserves I)
  (hpush : ∀ w m, I w → I { w with path := w.path.push m })

include hassign in
theorem preserves_assignNames (spot : Spot) (m : Taint) : ∀ (names : List String) (control : Taint),
    (assignNames edition spot m names control).Preserves I
  | [], _ => preserves_pure _
  | name :: rest, control => (hassign spot m control name).bind fun _ => preserves_assignNames spot m rest _

include hmark hread hassign in
theorem preserves_assign {targets : List Target} {value : Expr} {spot : Spot}
    (hs : ∀ site ∈ targets.flatMap (·.sites spot) ++ value.sites, allowed site) :
    (assign edition targets value spot).Preserves I := by
  rw [List.forall_mem_append] at hs
  refine preserves_clean.bind fun _ => ?_
  refine (preserves_takeTargets hmark (fun e => hread e .value) targets _ [] hs.1).bind fun taken => ?_
  refine (hread value .value hs.2).bind fun _ => preserves_clean.bind fun _ => ?_
  refine (hread value .control hs.2).bind fun _ => ?_
  exact (preserves_assignNames hassign spot _ taken.2 _).bind fun _ => preserves_pure _

include hread hpush in
theorem preserves_enterTest {test : Expr} (hs : ∀ site ∈ test.sites, allowed site) :
    (enterTest edition test).Preserves I := by
  refine (hread test .condition hs).bind fun _ => (hread test .control hs).bind fun _ => ?_
  exact preserves_setPath fun w hw => hpush w _ hw

include hmark hread hassign hpush in
theorem preserves_enterItem {target : Target} {iter : Expr} {spot : Spot}
    (hs : ∀ site ∈ target.sites spot ++ iter.sites, allowed site) :
    (enterItem edition target iter spot).Preserves I := by
  refine (preserves_assign hmark hread hassign (by rwa [List.flatMap_singleton])).bind fun _ => ?_
  exact preserves_setPath fun w hw => hpush w _ hw

end Regions

end Eval

end TaintFlow
