import TaintFlow.Proofs.Evaluation
import TaintFlow.Proofs.Site

/-
Two runs of the evaluator side by side, with relations that may depend on how far the runs have come.
A `Coupling` says which worlds belong together, how they may move on, and which labels correspond in
them. If it respects the primitive steps (what is looked up, how labels are built, what is flagged and
how paths change), it respects every expression and every assignment: the recursion is done here, once.
The two runs may be of different editions and under different policies.
-/
namespace TaintFlow

/-! ## Steps in closed form -/

namespace Path

/-- The label with a raw flow from a name that is read at a spot, for each pattern that has it as a
source. -/
def addKnownSource (p : Path) (edition : Edition) (m : Taint) (name : String) (spot : Spot) : Taint :=
  if p.knowsSource name then p.addSource m name (edition.place spot p.scope) else m

/-- The label after a call, which sanitizes it for each pattern that has the function as a sanitizer. -/
def sanitize [SetOrder] (p : Path) (m : Taint) (function : String) (line : Int) : Taint :=
  if p.knowsSanitizer function then m.addSanitizer p.view function line else m

/-- What conditions left on a variable, with the conditions around. -/
def before [SetOrder] (p : Path) (name : String) : Taint :=
  match p.controlLabels.get? name with
  | some l => l.combine p.currentControl
  | none => p.currentControl

end Path

namespace Eval

theorem run_path_bind {α : Type} (f : Path → Eval α) (w : World) : (path >>= f).run w = (f w.path).run w := rfl

theorem run_clean_bind {α : Type} (f : Taint → Eval α) (w : World) : (clean >>= f).run w = (f w.path.clean).run w :=
  rfl

variable (edition : Edition)

theorem run_addKnownSource (m : Taint) (name : String) (spot : Spot) (w : World) :
    (addKnownSource edition m name spot).run w = (.ok (w.path.addKnownSource edition m name spot), w) := by
  unfold addKnownSource Path.addKnownSource
  rw [run_path_bind]
  split <;> rfl

theorem run_readAssigned [SetOrder] (id : String) (spot : Spot) (w : World) :
    (readAssigned edition id spot).run w =
      (.ok ((w.path.addKnownSource edition w.path.clean id spot).combine ((w.path.labels.get? id).getD w.path.clean)),
        if (w.path.labels.get? id).isSome then w
        else { w with path := { w.path with labels := w.path.labels.update id w.path.clean } }) := by
  unfold readAssigned
  rw [run_path_bind, run_clean_bind, run_bind, run_addKnownSource]
  dsimp only
  cases w.path.labels.get? id <;> rfl

theorem run_readAttribute [SetOrder] (m : Taint) (attr : String) (spot : Spot) (w : World) :
    (readAttribute edition m attr spot).run w =
      (.ok (((w.path.labels.get? attr).map (w.path.addKnownSource edition m attr spot).combine).getD
        (w.path.addKnownSource edition m attr spot)), w) := by
  unfold readAttribute
  rw [run_path_bind, run_bind, run_addKnownSource]
  dsimp only
  cases w.path.labels.get? attr <;> rfl

theorem run_applyFunction [SetOrder] (function : String) (spot : Spot) (m control : Taint) (w : World) :
    (applyFunction edition function spot m control).run w =
      (do
        let m := w.path.sanitize (w.path.addKnownSource edition m function spot) function spot.line
        let control := w.path.sanitize (control.combine w.path.currentControl) function spot.line
        flag edition function spot m .explicit
        flag edition function spot control .implicit
        return (m, control) : Eval (Taint × Taint)).run w := by
  unfold applyFunction Path.sanitize
  rw [run_path_bind, run_bind, run_addKnownSource]
  dsimp only
  cases w.path.knowsSanitizer function <;> rfl

end Eval

/-! ## Couplings -/

/-- The worlds of two runs. -/
abbrev Worlds := World × World

/-- What is common to two runs of the evaluator. -/
structure Coupling where
  edition : Edition
  edition' : Edition
  /-- The worlds belong together. -/
  Linked : Worlds → Prop
  /-- The runs may have come from the first worlds to the second. -/
  Later : Worlds → Worlds → Prop
  /-- Explicit labels while they are computed. -/
  Value : Worlds → Taint → Taint → Prop
  /-- Explicit labels of variables. -/
  Stored : Worlds → Taint → Taint → Prop
  /-- Control labels while they are computed. -/
  Pending : Worlds → Taint → Taint → Prop
  Control : Worlds → Taint → Taint → Prop
  refl : ∀ σ, Later σ σ
  trans : ∀ {σ τ υ}, Later σ τ → Later τ υ → Later σ υ

/-- The worlds with other paths. -/
def Worlds.at (σ : Worlds) (p q : Path) : Worlds := ({ σ.1 with path := p }, { σ.2 with path := q })

namespace Coupling

variable (c : Coupling)

/-- Both runs come to related results, or both stop with the same fault. -/
inductive Outcome {α β : Type} (σ : Worlds) (Q : Worlds → α → β → Prop) :
    Except Fault α × World → Except Fault β × World → Prop where
  | ok {a : α} {b : β} {v v' : World} : Q (v, v') a b → c.Linked (v, v') → c.Later σ (v, v') →
    Outcome σ Q (.ok a, v) (.ok b, v')
  | error {f : Fault} {v v' : World} : c.Linked (v, v') → c.Later σ (v, v') →
    Outcome σ Q (.error f, v) (.error f, v')

/-- Started in worlds that belong together, the steps come to related results or stop with the same
fault. -/
def Runs {α β : Type} (σ : Worlds) (Q : Worlds → α → β → Prop) (x : Eval α) (y : Eval β) : Prop :=
  c.Linked σ → c.Outcome σ Q (x.run σ.1) (y.run σ.2)

/-- The runs can go on with these paths. -/
def Moves (σ : Worlds) (p q : Path) : Prop := c.Linked (σ.at p q) ∧ c.Later σ (σ.at p q)

/-- Nothing is asked of the results. -/
def Any {α β : Type} (_ : Worlds) (_ : α) (_ : β) : Prop := True

variable {c}

section Rules

variable {α β γ δ : Type} {σ τ : Worlds} {Q : Worlds → α → β → Prop} {R : Worlds → γ → δ → Prop}

theorem Runs.pure {a : α} {b : β} (h : c.Linked σ → Q σ a b) : c.Runs σ Q (Pure.pure a) (Pure.pure b) :=
  fun hσ => .ok (h hσ) hσ (c.refl σ)

theorem Runs.throw {f : Fault} : c.Runs σ Q (throw f) (throw f) := fun hσ => .error hσ (c.refl σ)

theorem Outcome.before {r : Except Fault α × World} {r' : Except Fault β × World} (h : c.Outcome τ Q r r')
    (hστ : c.Later σ τ) : c.Outcome σ Q r r' := by
  cases h with
  | ok hq hl ht => exact .ok hq hl (c.trans hστ ht)
  | error hl ht => exact .error hl (c.trans hστ ht)

theorem Runs.bind {x : Eval α} {y : Eval β} {f : α → Eval γ} {g : β → Eval δ} (hx : c.Runs σ Q x y)
    (hf : ∀ τ a b, c.Later σ τ → Q τ a b → c.Runs τ R (f a) (g b)) : c.Runs σ R (x >>= f) (y >>= g) := by
  intro hσ
  rw [Eval.run_bind, Eval.run_bind]
  have h := hx hσ
  generalize x.run σ.1 = r at h ⊢
  generalize y.run σ.2 = r' at h ⊢
  cases h with
  | ok hq hl ht => exact (hf _ _ _ ht hq hl).before ht
  | error hl ht => exact .error hl ht

theorem Runs.imp {Q' : Worlds → α → β → Prop} {x : Eval α} {y : Eval β} (hx : c.Runs σ Q x y)
    (h : ∀ τ a b, Q τ a b → Q' τ a b) : c.Runs σ Q' x y := by
  intro hσ
  have hx := hx hσ
  generalize x.run σ.1 = r at hx ⊢
  generalize y.run σ.2 = r' at hx ⊢
  cases hx with
  | ok hq hl ht => exact .ok (h _ _ _ hq) hl ht
  | error hl ht => exact .error hl ht

theorem Runs.discard {x : Eval α} {y : Eval β} (hx : c.Runs σ Q x y) : c.Runs σ Any (discard x) (discard y) :=
  hx.bind fun _ _ _ _ _ => .pure fun _ => trivial

/-- Looking at the paths changes nothing. -/
theorem Runs.path {f : Path → Eval γ} {g : Path → Eval δ}
    (h : c.Linked σ → c.Runs σ R (f σ.1.path) (g σ.2.path)) : c.Runs σ R (Eval.path >>= f) (Eval.path >>= g) :=
  fun hσ => h hσ hσ

theorem Runs.setPath {p q : Path} (h : c.Linked σ → c.Moves σ p q) :
    c.Runs σ Any (Eval.setPath p) (Eval.setPath q) :=
  fun hσ => .ok trivial (h hσ).1 (h hσ).2

end Rules

/-! ## Couplings that respect the evaluator -/

/-- The name may be a source at the spot of an allowed site. -/
def Mentioned (allowed : Site → Prop) (x : String) (spot : Spot) : Prop :=
  ∃ site, allowed site ∧ x ∈ site.mentions ∧ site.spot = spot

/-- The name may be a sink at the spot of an allowed site. -/
def Exposed (allowed : Site → Prop) (x : String) (spot : Spot) : Prop :=
  ∃ site, allowed site ∧ x ∈ site.sinks ∧ site.spot = spot

/-- The variable is read at an allowed site. -/
def Consulted (allowed : Site → Prop) (x : String) : Prop := ∃ site, allowed site ∧ x ∈ site.reads

/-- The paths of two worlds are built and read in the same way by the primitive steps of expressions, at
the sites that are allowed. What a test makes of a name that was not assigned is left out. -/
structure Reads [SetOrder] (c : Coupling) (allowed : Site → Prop) : Prop where
  value_later : ∀ {σ τ m m'}, c.Later σ τ → c.Value σ m m' → c.Value τ m m'
  pending_later : ∀ {σ τ m m'}, c.Later σ τ → c.Pending σ m m' → c.Pending τ m m'
  control_later : ∀ {σ τ m m'}, c.Later σ τ → c.Control σ m m' → c.Control τ m m'
  value_stored : ∀ {σ m m'}, c.Value σ m m' → c.Stored σ m m'
  value_pending : ∀ {σ m m'}, c.Value σ m m' → c.Pending σ m m'
  pending_control : ∀ {σ m m'}, c.Pending σ m m' → c.Control σ m m'
  value_combine : ∀ {σ a a' b b'}, c.Value σ a a' → c.Stored σ b b' → c.Value σ (a.combine b) (a'.combine b')
  pending_combine : ∀ {σ a a' b b'}, c.Pending σ a a' → c.Control σ b b' → c.Pending σ (a.combine b) (a'.combine b')
  control_combine : ∀ {σ a a' b b'}, c.Control σ a a' → c.Control σ b b' → c.Control σ (a.combine b) (a'.combine b')
  initialized : ∀ {σ}, c.Linked σ → ∀ x, x ∈ σ.1.path.initialized ↔ x ∈ σ.2.path.initialized
  clean : ∀ {σ}, c.Linked σ → c.Value σ σ.1.path.clean σ.2.path.clean
  label : ∀ {σ}, c.Linked σ → ∀ x, Option.Rel (c.Stored σ) (σ.1.path.labels.get? x) (σ.2.path.labels.get? x)
  left : ∀ {σ}, c.Linked σ → ∀ x, c.Control σ ((σ.1.path.controlLabels.get? x).getD σ.1.path.clean)
    ((σ.2.path.controlLabels.get? x).getD σ.2.path.clean)
  current : ∀ {σ}, c.Linked σ → c.Pending σ σ.1.path.currentControl σ.2.path.currentControl
  source : ∀ {σ x spot m m'}, c.Linked σ → Mentioned allowed x spot → c.Value σ m m' →
    c.Value σ (σ.1.path.addSource m x (c.edition.place spot σ.1.path.scope))
      (σ.2.path.addSource m' x (c.edition'.place spot σ.2.path.scope))
  known : ∀ {σ x spot m m'}, c.Linked σ → Mentioned allowed x spot → c.Value σ m m' →
    c.Value σ (σ.1.path.addKnownSource c.edition m x spot) (σ.2.path.addKnownSource c.edition' m' x spot)
  sanitized : ∀ {σ r f spot m m'}, c.Linked σ → allowed (.call r f spot) → c.Value σ m m' →
    c.Value σ (σ.1.path.sanitize m f spot.line) (σ.2.path.sanitize m' f spot.line)
  sanitized_pending : ∀ {σ r f spot m m'}, c.Linked σ → allowed (.call r f spot) → c.Pending σ m m' →
    c.Pending σ (σ.1.path.sanitize m f spot.line) (σ.2.path.sanitize m' f spot.line)
  discover : ∀ {σ x}, c.Linked σ → Consulted allowed x → x ∉ σ.1.path.initialized →
    c.Moves σ ((σ.1.path.discover x).markInitialized x) ((σ.2.path.discover x).markInitialized x)
  fill : ∀ {σ x}, c.Linked σ → Consulted allowed x → x ∈ σ.1.path.initialized →
    σ.1.path.labels.get? x = none → σ.2.path.labels.get? x = none →
    c.Moves σ { σ.1.path with labels := σ.1.path.labels.update x σ.1.path.clean }
      { σ.2.path with labels := σ.2.path.labels.update x σ.2.path.clean }
  flag : ∀ {σ x spot m m'}, Exposed allowed x spot → c.Value σ m m' →
    c.Runs σ Any (Eval.flag c.edition x spot m .explicit) (Eval.flag c.edition' x spot m' .explicit)
  flag_control : ∀ {σ x spot m m'}, Exposed allowed x spot → c.Control σ m m' →
    c.Runs σ Any (Eval.flag c.edition x spot m .implicit) (Eval.flag c.edition' x spot m' .implicit)

/-- A test may make a source of the name. -/
def Learns (c : Coupling) (x : String) : Prop :=
  ∀ {σ}, c.Linked σ → x ∉ σ.1.path.initialized →
    c.Moves σ (σ.1.path.discoverImplicit x) (σ.2.path.discoverImplicit x)

/-- The coupling respects expressions in every context. -/
structure Lawful [SetOrder] (c : Coupling) (allowed : Site → Prop) : Prop extends c.Reads allowed where
  discoverImplicit : ∀ {σ x}, c.Linked σ → Consulted allowed x → x ∉ σ.1.path.initialized →
    c.Moves σ (σ.1.path.discoverImplicit x) (σ.2.path.discoverImplicit x)

/-- The coupling also respects the steps of assignments and of entering a region. -/
structure Stores [SetOrder] (c : Coupling) (allowed : Site → Prop) : Prop extends c.Reads allowed where
  mark : ∀ {σ x spot}, c.Linked σ → allowed (.assigned x spot) →
    c.Moves σ (σ.1.path.markInitialized x) (σ.2.path.markInitialized x)
  assign : ∀ {σ x spot m m' k k'}, c.Linked σ → allowed (.assigned x spot) → c.Value σ m m' → c.Control σ k k' →
    c.Moves σ
      { σ.1.path with labels := σ.1.path.labels.update x m, controlLabels := σ.1.path.controlLabels.update x k }
      { σ.2.path with labels := σ.2.path.labels.update x m', controlLabels := σ.2.path.controlLabels.update x k' }
  before : ∀ {σ}, c.Linked σ → ∀ x, c.Control σ (σ.1.path.before x) (σ.2.path.before x)
  push : ∀ {σ k k'}, c.Linked σ → c.Control σ k k' → c.Moves σ (σ.1.path.push k) (σ.2.path.push k')

/-- The coupling respects all steps, of tests as well. -/
structure Writes [SetOrder] (c : Coupling) (allowed : Site → Prop) : Prop extends c.Lawful allowed, c.Stores allowed

theorem rel_getD {R : Taint → Taint → Prop} {o o' : Option Taint} (h : Option.Rel R o o') {k k' : Taint} (hk : R k k') :
    R (o.getD k) (o'.getD k') := by
  cases h with
  | none => exact hk
  | some h => exact h

theorem rel_before [SetOrder] {R : Taint → Taint → Prop} {p q : Path} {x : String}
    (hcombine : ∀ {a a' b b'}, R a a' → R b b' → R (a.combine b) (a'.combine b'))
    (h : Option.Rel R (p.controlLabels.get? x) (q.controlLabels.get? x)) (hk : R p.currentControl q.currentControl) :
    R (p.before x) (q.before x) := by
  unfold Path.before
  generalize p.controlLabels.get? x = o at h ⊢
  generalize q.controlLabels.get? x = o' at h ⊢
  cases h with
  | none => exact hk
  | some h => exact hcombine h hk

theorem Lawful.learns [SetOrder] {c : Coupling} {allowed : Site → Prop} (h : c.Lawful allowed) {e : Expr}
    (hs : ∀ site ∈ e.sites, allowed site) : ∀ x ∈ e.tested, c.Learns x := by
  intro x hx σ hσ hi
  obtain ⟨spot, hsite⟩ := Expr.site_of_tested e hx
  exact h.discoverImplicit hσ ⟨_, hs _ hsite, List.mem_singleton_self x⟩ hi

/-! ## Operations of the evaluator -/

section Operations

variable [SetOrder] {allowed : Site → Prop} (h : c.Reads allowed) {σ : Worlds}

include h

theorem runs_clean : c.Runs σ c.Value Eval.clean Eval.clean := fun hσ => .ok (h.clean hσ) hσ (c.refl σ)

/-- How the results of two runs in a context are related. -/
def Result (c : Coupling) : Context → Worlds → Taint → Taint → Prop
  | .control => c.Control
  | _ => c.Value

omit [SetOrder] h in
theorem result_eq {context : Context} (hc : context ≠ .control) : c.Result context = c.Value := by
  cases context with
  | control => exact absurd rfl hc
  | value => rfl
  | condition => rfl
  | other => rfl

theorem Reads.result {context : Context} {m m' : Taint} (hm : c.Value σ m m') : c.Result context σ m m' := by
  by_cases hc : context = .control
  · subst hc
    exact h.pending_control (h.value_pending hm)
  · rw [result_eq hc]
    exact hm

theorem Reads.result_later {context : Context} {τ : Worlds} (hστ : c.Later σ τ) {m m' : Taint}
    (hm : c.Result context σ m m') : c.Result context τ m m' := by
  by_cases hc : context = .control
  · subst hc
    exact h.control_later hστ hm
  · rw [result_eq hc] at hm ⊢
    exact h.value_later hστ hm

theorem Reads.result_combine {context : Context} {a a' b b' : Taint} (ha : c.Result context σ a a')
    (hb : c.Result context σ b b') : c.Result context σ (a.combine b) (a'.combine b') := by
  by_cases hc : context = .control
  · subst hc
    exact h.control_combine ha hb
  · rw [result_eq hc] at ha hb ⊢
    exact h.value_combine ha (h.value_stored hb)

theorem runs_readUnassigned {x : String} {spot : Spot} (hx : Mentioned allowed x spot) (hr : Consulted allowed x)
    (hi : x ∉ σ.1.path.initialized) {context : Context} (ht : context = .condition → c.Learns x) :
    c.Runs σ c.Value (Eval.readUnassigned c.edition x spot context)
      (Eval.readUnassigned c.edition' x spot context) := by
  intro hσ
  cases context with
  | value =>
    obtain ⟨hl, ht⟩ := h.discover hσ hr hi
    exact .ok (h.source hl hx (h.clean hl)) hl ht
  | condition =>
    obtain ⟨hl, ht⟩ := ht rfl hσ hi
    exact .ok (h.source hl hx (h.clean hl)) hl ht
  | control => exact .ok (h.source hσ hx (h.clean hσ)) hσ (c.refl σ)
  | other => exact .ok (h.source hσ hx (h.clean hσ)) hσ (c.refl σ)

theorem runs_readAssigned {x : String} {spot : Spot} (hx : Mentioned allowed x spot) (hr : Consulted allowed x)
    (hi : x ∈ σ.1.path.initialized) :
    c.Runs σ c.Value (Eval.readAssigned c.edition x spot) (Eval.readAssigned c.edition' x spot) := by
  intro hσ
  rw [Eval.run_readAssigned, Eval.run_readAssigned]
  have hm := h.known hσ hx (h.clean hσ)
  have hl := h.label hσ x
  cases ho : σ.1.path.labels.get? x with
  | none => cases ho' : σ.2.path.labels.get? x with
    | none =>
      obtain ⟨hl, ht⟩ := h.fill hσ hr hi ho ho'
      exact .ok (h.value_later ht (h.value_combine hm (h.value_stored (h.clean hσ)))) hl ht
    | some l => rw [ho, ho'] at hl; cases hl
  | some l => cases ho' : σ.2.path.labels.get? x with
    | none => rw [ho, ho'] at hl; cases hl
    | some l' =>
      rw [ho, ho'] at hl
      cases hl with
      | some hs => exact .ok (h.value_combine hm hs) hσ (c.refl σ)

theorem runs_readName {x : String} {spot : Spot} (hs : allowed (.name x spot)) {context : Context}
    (ht : context = .condition → c.Learns x) :
    c.Runs σ (c.Result context) (Eval.readName c.edition x spot context)
      (Eval.readName c.edition' x spot context) := by
  have hx : Mentioned allowed x spot := ⟨_, hs, List.mem_singleton_self x, rfl⟩
  have hr : Consulted allowed x := ⟨_, hs, List.mem_singleton_self x⟩
  refine .path fun hσ => ?_
  by_cases hi : x ∈ σ.1.path.initialized
  · have hi' := (h.initialized hσ x).1 hi
    rw [if_neg (not_not_intro hi), if_neg (not_not_intro hi')]
    split
    · rename_i he
      subst he
      exact .pure fun hσ => h.left hσ x
    · exact (runs_readAssigned h hx hr hi).imp fun _ _ _ hm => h.result hm
  · have hi' := fun hm => hi ((h.initialized hσ x).2 hm)
    rw [if_pos hi, if_pos hi']
    exact (runs_readUnassigned h hx hr hi ht).imp fun _ _ _ hm => h.result hm

theorem runs_readAttribute {attr : String} {spot : Spot} (hs : allowed (.attribute attr spot)) {m m' : Taint}
    (hm : c.Value σ m m') :
    c.Runs σ c.Value (Eval.readAttribute c.edition m attr spot) (Eval.readAttribute c.edition' m' attr spot) := by
  intro hσ
  rw [Eval.run_readAttribute, Eval.run_readAttribute]
  have hm := h.known hσ ⟨_, hs, List.mem_singleton_self attr, rfl⟩ hm
  have hl := h.label hσ attr
  generalize σ.1.path.labels.get? attr = o at hl ⊢
  generalize σ.2.path.labels.get? attr = o' at hl ⊢
  cases hl with
  | none => exact .ok hm hσ (c.refl σ)
  | some hl => exact .ok (h.value_combine hm hl) hσ (c.refl σ)

theorem runs_flagContainer {container : Expr} {spot : Spot} (hs : allowed (.item container.variable? spot))
    {m m' : Taint} (hm : c.Value σ m m') :
    c.Runs σ Any (Eval.flagContainer c.edition container spot m) (Eval.flagContainer c.edition' container spot m') := by
  unfold Eval.flagContainer
  split
  · exact h.flag ⟨_, hs, List.mem_singleton_self _, rfl⟩ hm
  · exact .throw
  · exact .pure fun _ => trivial

theorem runs_readReceiver {receiver function : String} {spot : Spot} (hs : allowed (.call receiver function spot)) :
    c.Runs σ c.Value (Eval.readReceiver c.edition receiver spot) (Eval.readReceiver c.edition' receiver spot) := by
  refine .path fun hσ => ?_
  have hi : (decide (receiver ≠ "") && decide (receiver ∉ σ.1.path.initialized)) =
      (decide (receiver ≠ "") && decide (receiver ∉ σ.2.path.initialized)) := by
    rw [decide_eq_decide.2 (not_congr (h.initialized hσ receiver))]
  rw [← hi]
  split
  · rename_i hb
    obtain ⟨hne, hni⟩ := Bool.and_eq_true_iff.1 hb
    have hmem : receiver ∈ Site.receiver receiver := by
      unfold Site.receiver
      rw [if_neg (of_decide_eq_true hne)]
      exact List.mem_singleton_self receiver
    obtain ⟨hl, ht⟩ := h.discover hσ ⟨_, hs, hmem⟩ (of_decide_eq_true hni)
    have hx : Mentioned allowed receiver spot := ⟨_, hs, List.mem_append_left _ hmem, rfl⟩
    -- the variable is marked as assigned only after the flow is made, which does not change the flow
    exact fun _ => .ok (h.source hl hx (h.clean hl)) hl ht
  · exact runs_clean h

/-- Explicit taint and control taint of two runs. -/
structure Both (c : Coupling) (σ : Worlds) (a b : Taint × Taint) : Prop where
  value : c.Value σ a.1 b.1
  control : c.Pending σ a.2 b.2

theorem runs_applyFunction {receiver function : String} {spot : Spot} (hs : allowed (.call receiver function spot))
    {m m' k k' : Taint} (hm : c.Value σ m m') (hk : c.Pending σ k k') :
    c.Runs σ c.Both (Eval.applyFunction c.edition function spot m k)
      (Eval.applyFunction c.edition' function spot m' k') := by
  intro hσ
  rw [Eval.run_applyFunction, Eval.run_applyFunction]
  have hx : Mentioned allowed function spot := ⟨_, hs, List.mem_append_right _ (List.mem_singleton_self _), rfl⟩
  have hsink : Exposed allowed function spot := ⟨_, hs, List.mem_singleton_self _, rfl⟩
  have hm := h.sanitized hσ hs (h.known hσ hx hm)
  have hk := h.sanitized_pending hσ hs (h.pending_combine hk (h.pending_control (h.current hσ)))
  refine Runs.bind (h.flag hsink hm) (fun τ _ _ ht _ => ?_) hσ
  refine (h.flag_control hsink (h.control_later ht (h.pending_control hk))).bind fun υ _ _ hu _ => ?_
  exact .pure fun _ => ⟨h.value_later (c.trans ht hu) hm, h.pending_later (c.trans ht hu) hk⟩

end Operations

/-! ## Expressions -/

section Expressions

variable {allowed : Site → Prop}

mutual

/-- Two runs of an expression whose sites are allowed have related taints, if the names that a test of it reads
may become sources. -/
theorem Reads.evaluate [SetOrder] (h : c.Reads allowed) : ∀ (e : Expr), (∀ site ∈ e.sites, allowed site) →
    ∀ (context : Context), (context = .condition → ∀ x ∈ e.tested, c.Learns x) → ∀ (σ : Worlds),
    c.Runs σ (c.Result context) (e.evaluate c.edition context) (e.evaluate c.edition' context)
  | .name x spot, hs, context, ht, σ => by
    rw [Expr.evaluate.eq_def, Expr.evaluate.eq_def]
    rw [Expr.sites, List.forall_mem_singleton] at hs
    rw [Expr.tested, List.forall_mem_singleton] at ht
    exact runs_readName h hs ht
  | .attribute base attr spot, hs, context, ht, σ => by
    rw [Expr.evaluate.eq_def, Expr.evaluate.eq_def]
    rw [Expr.sites, List.forall_mem_append, List.forall_mem_singleton] at hs
    rw [Expr.tested] at ht
    refine (runs_clean h).bind fun τ _ _ _ hm => (h.evaluate base hs.1 context ht τ).bind fun υ _ _ hu hb => ?_
    have hm := h.result_combine (h.result (h.value_later hu hm)) hb
    split
    · rename_i he
      subst he
      exact runs_readAttribute h hs.2 hm
    · exact .pure fun _ => hm
  | .subscript container index spot, hs, context, ht, σ => by
    rw [Expr.evaluate.eq_def, Expr.evaluate.eq_def]
    rw [Expr.sites, List.forall_mem_append, List.forall_mem_append, List.forall_mem_singleton] at hs
    simp only [Expr.tested, List.forall_mem_append] at ht
    obtain ⟨⟨hc, hi⟩, hs⟩ := hs
    refine (runs_clean h).bind fun τ _ _ _ hm =>
      (h.evaluate container hc context (fun he => (ht he).1) τ).bind fun υ _ _ hu hl => ?_
    refine (h.evaluate index hi context (fun he => (ht he).2) υ).bind fun φ _ _ hv hr => ?_
    have hm := h.result_combine (h.result_later hv (h.result_combine (h.result (h.value_later hu hm)) hl)) hr
    split
    · rename_i he
      subst he
      exact (runs_flagContainer h hs hm).bind fun _ _ _ hl _ => .pure fun _ => h.value_later hl hm
    · exact .pure fun _ => hm
  | .binary left right, hs, context, ht, σ => by
    rw [Expr.evaluate.eq_def, Expr.evaluate.eq_def]
    rw [Expr.sites, List.forall_mem_append] at hs
    simp only [Expr.tested, List.forall_mem_append] at ht
    refine (runs_clean h).bind fun τ _ _ _ hm =>
      (h.evaluate left hs.1 context (fun he => (ht he).1) τ).bind fun υ _ _ hu hl => ?_
    refine (h.evaluate right hs.2 context (fun he => (ht he).2) υ).bind fun φ _ _ hv hr => .pure fun _ => ?_
    exact h.result_combine (h.result_later hv (h.result_combine (h.result (h.value_later hu hm)) hl)) hr
  | .call receiver function args spot, hs, context, _, σ => by
    rw [Expr.evaluate.eq_def, Expr.evaluate.eq_def]
    rw [Expr.sites, List.forall_mem_append, List.forall_mem_singleton] at hs
    refine (runs_readReceiver h hs.2).bind fun τ _ _ _ hm => (runs_clean h).bind fun υ _ _ hu hk => ?_
    refine (h.evaluateArgs args hs.1 (h.value_later hu hm) (h.value_pending hk)).bind fun φ _ _ _ hb => ?_
    refine (runs_applyFunction h hs.2 hb.value hb.control).bind fun ψ _ _ _ hb => .pure fun _ => ?_
    -- arguments are read both as values and as conditions, and the context takes one of the two taints
    split
    · rename_i he
      subst he
      exact h.pending_control hb.control
    · exact h.result hb.value
  | .compare left rest, hs, context, ht, σ => by
    rw [Expr.evaluate.eq_def, Expr.evaluate.eq_def]
    rw [Expr.sites, List.forall_mem_append] at hs
    simp only [Expr.tested, List.forall_mem_append] at ht
    exact (h.evaluate left hs.1 context (fun he => (ht he).1) σ).bind fun τ _ _ _ hm =>
      h.evaluateAll rest hs.2 context (fun he => (ht he).2) hm
  | .unary operand, hs, context, ht, σ => by
    rw [Expr.evaluate.eq_def, Expr.evaluate.eq_def]
    rw [Expr.tested] at ht
    exact h.evaluate operand hs context ht σ
  | .boolean values, hs, context, ht, σ => by
    rw [Expr.evaluate.eq_def, Expr.evaluate.eq_def]
    rw [Expr.tested] at ht
    exact (runs_clean h).bind fun τ _ _ _ hm => h.evaluateAll values hs context ht (h.result hm)
  | .inert, _, context, _, σ => by
    rw [Expr.evaluate.eq_def, Expr.evaluate.eq_def]
    exact (runs_clean h).imp fun _ _ _ hm => h.result hm
  | .missing, _, context, _, σ => by
    rw [Expr.evaluate.eq_def, Expr.evaluate.eq_def]
    exact (runs_clean h).imp fun _ _ _ hm => h.result hm
  | .fails fault, _, context, _, σ => by
    rw [Expr.evaluate.eq_def, Expr.evaluate.eq_def]
    exact .throw

theorem Reads.evaluateArgs [SetOrder] (h : c.Reads allowed) : ∀ (args : List Expr),
    (∀ site ∈ Expr.allSites args, allowed site) →
    ∀ {σ : Worlds} {m m' k k' : Taint}, c.Value σ m m' → c.Pending σ k k' →
    c.Runs σ c.Both (Expr.evaluateArgs c.edition args m k) (Expr.evaluateArgs c.edition' args m' k')
  | [], _, σ, _, _, _, _, hm, hk => by
    rw [Expr.evaluateArgs.eq_def, Expr.evaluateArgs.eq_def]
    exact .pure fun _ => ⟨hm, hk⟩
  | arg :: rest, hs, σ, _, _, _, _, hm, hk => by
    rw [Expr.evaluateArgs.eq_def, Expr.evaluateArgs.eq_def]
    rw [Expr.allSites, List.forall_mem_append] at hs
    refine (h.evaluate arg hs.1 .value (fun he => by cases he) σ).bind fun τ _ _ ht hv => ?_
    refine (h.evaluate arg hs.1 .control (fun he => by cases he) τ).bind fun υ _ _ hu hv' => ?_
    have hm := h.value_combine (h.value_later ht hm) (h.value_stored hv)
    exact h.evaluateArgs rest hs.2 (h.value_later hu hm)
      (h.pending_combine (h.pending_later (c.trans ht hu) hk) hv')

theorem Reads.evaluateAll [SetOrder] (h : c.Reads allowed) : ∀ (operands : List Expr),
    (∀ site ∈ Expr.allSites operands, allowed site) → ∀ (context : Context),
    (context = .condition → ∀ x ∈ Expr.allTested operands, c.Learns x) → ∀ {σ : Worlds} {m m' : Taint},
    c.Result context σ m m' →
    c.Runs σ (c.Result context) (Expr.evaluateAll c.edition context operands m)
      (Expr.evaluateAll c.edition' context operands m')
  | [], _, context, _, σ, _, _, hm => by
    rw [Expr.evaluateAll.eq_def, Expr.evaluateAll.eq_def]
    exact .pure fun _ => hm
  | operand :: rest, hs, context, ht, σ, _, _, hm => by
    rw [Expr.evaluateAll.eq_def, Expr.evaluateAll.eq_def]
    rw [Expr.allSites, List.forall_mem_append] at hs
    simp only [Expr.allTested, List.forall_mem_append] at ht
    refine (h.evaluate operand hs.1 context (fun he => (ht he).1) σ).bind fun τ _ _ hl hv => ?_
    exact h.evaluateAll rest hs.2 context (fun he => (ht he).2) (h.result_combine (h.result_later hl hm) hv)

end

/-- Two runs of an expression whose sites are allowed have related taints. -/
theorem runs_evaluate [SetOrder] (h : c.Lawful allowed) (e : Expr) (hs : ∀ site ∈ e.sites, allowed site)
    (context : Context) (σ : Worlds) :
    c.Runs σ (c.Result context) (e.evaluate c.edition context) (e.evaluate c.edition' context) :=
  h.toReads.evaluate e hs context (fun _ => h.learns hs) σ

end Expressions

/-! ## Assignments -/

section Assignments

variable [SetOrder] {allowed : Site → Prop} (h : c.Stores allowed)

include h

/-- The taint of a place and the names it stands for, in two runs. -/
structure Taken (c : Coupling) (allowed : Site → Prop) (spot : Spot) (σ : Worlds) (a b : Taint × List String) :
    Prop where
  value : c.Value σ a.1 b.1
  names : a.2 = b.2
  allowed : ∀ x ∈ a.2, allowed (.assigned x spot)

theorem runs_takeTarget {spot : Spot} : ∀ (t : Target), (∀ site ∈ t.sites spot, allowed site) → ∀ (σ : Worlds),
    c.Runs σ (c.Taken allowed spot) (Eval.takeTarget c.edition t) (Eval.takeTarget c.edition' t)
  | .name x, hs, σ => by
    have hx : allowed (.assigned x spot) := hs _ (List.mem_singleton_self _)
    refine .path fun hσ => (Runs.setPath fun _ => h.mark hσ hx).bind fun τ _ _ _ _ => ?_
    exact (runs_clean h.toReads).bind fun υ _ _ _ hm => .pure fun _ => ⟨hm, rfl, List.forall_mem_singleton.2 hx⟩
  | .attribute base attr, hs, σ => by
    have hn : ∀ x ∈ base.toList ++ [attr], allowed (.assigned x spot) := fun x hx =>
      hs _ (List.mem_append_left _ (List.mem_map.2 ⟨x, hx, rfl⟩))
    refine .path fun hσ => (Runs.setPath fun _ => h.mark hσ (hn attr (by simp))).bind fun τ _ _ _ _ => ?_
    exact (runs_clean h.toReads).bind fun υ _ _ _ hm => .pure fun _ => ⟨hm, rfl, hn⟩
  | .subscript container whole, hs, σ => by
    have hn : ∀ x ∈ container.toList, allowed (.assigned x spot) := fun x hx =>
      hs _ (List.mem_append_left _ (List.mem_map.2 ⟨x, hx, rfl⟩))
    have hw : ∀ site ∈ whole.sites, allowed site := fun site hsite => hs _ (List.mem_append_right _ hsite)
    refine (runs_clean h.toReads).bind fun τ _ _ _ hm => ?_
    refine (h.toReads.evaluate whole hw .value (fun he => by cases he) τ).bind fun υ _ _ hu hv => ?_
    have hm := h.value_combine (h.value_later hu hm) (h.value_stored hv)
    cases container with
    | none => exact .pure fun _ => ⟨hm, rfl, hn⟩
    | some x =>
      refine .path fun hσ => (Runs.setPath fun _ => h.mark hσ (hn x (by simp))).bind fun φ _ _ hf _ => ?_
      exact .pure fun _ => ⟨h.value_later hf hm, rfl, hn⟩
  | .fails _, _, _ => .throw

theorem runs_takeTargets {spot : Spot} : ∀ (targets : List Target),
    (∀ site ∈ targets.flatMap (·.sites spot), allowed site) → ∀ {σ : Worlds} {m m' : Taint} (names : List String),
    c.Value σ m m' → (∀ x ∈ names, allowed (.assigned x spot)) →
    c.Runs σ (c.Taken allowed spot) (Eval.takeTargets c.edition targets m names)
      (Eval.takeTargets c.edition' targets m' names)
  | [], _, _, _, _, _, hm, hn => .pure fun _ => ⟨hm, rfl, hn⟩
  | t :: rest, hs, σ, _, _, _, hm, _ => by
    rw [List.flatMap_cons, List.forall_mem_append] at hs
    refine (runs_takeTarget h t hs.1 σ).bind fun τ a b ht hb => ?_
    obtain ⟨m, names⟩ := a
    obtain ⟨m', names'⟩ := b
    obtain ⟨hv, rfl, hn⟩ := hb
    exact runs_takeTargets rest hs.2 names (h.value_combine (h.value_later ht hm) (h.value_stored hv)) hn

theorem runs_assignName {spot : Spot} {x : String} (hx : allowed (.assigned x spot)) {σ : Worlds} {m m' k k' : Taint}
    (hm : c.Value σ m m') (hk : c.Control σ k k') :
    c.Runs σ c.Control (Eval.assignName c.edition spot m k x) (Eval.assignName c.edition' spot m' k' x) := by
  have hsink : Exposed allowed x spot := ⟨_, hx, List.mem_singleton_self x, rfl⟩
  have hrest : ∀ {k k' : Taint}, c.Control σ k k' → c.Runs σ c.Control
      (do Eval.flag c.edition x spot m .explicit
          Eval.flag c.edition x spot k .implicit
          let p ← Eval.path
          Eval.setPath { p with labels := p.labels.update x m, controlLabels := p.controlLabels.update x k }
          return k)
      (do Eval.flag c.edition' x spot m' .explicit
          Eval.flag c.edition' x spot k' .implicit
          let p ← Eval.path
          Eval.setPath { p with labels := p.labels.update x m', controlLabels := p.controlLabels.update x k' }
          return k') := by
    intro k k' hk
    refine (h.flag hsink hm).bind fun τ _ _ ht _ => ?_
    refine (h.flag_control hsink (h.control_later ht hk)).bind fun υ _ _ hu _ => .path fun hυ => ?_
    have hm := h.value_later (c.trans ht hu) hm
    have hk := h.control_later (c.trans ht hu) hk
    exact (Runs.setPath fun _ => h.assign hυ hx hm hk).bind fun φ _ _ hf _ => .pure fun _ => h.control_later hf hk
  exact .path fun hσ => hrest (h.control_combine (h.before hσ x) hk)

theorem runs_assignNames {spot : Spot} : ∀ (names : List String), (∀ x ∈ names, allowed (.assigned x spot)) →
    ∀ {σ : Worlds} {m m' k k' : Taint}, c.Value σ m m' → c.Control σ k k' →
    c.Runs σ (fun τ k k' => c.Value τ m m' ∧ c.Control τ k k') (Eval.assignNames c.edition spot m names k)
      (Eval.assignNames c.edition' spot m' names k')
  | [], _, _, _, _, _, _, hm, hk => .pure fun _ => ⟨hm, hk⟩
  | x :: rest, hn, _, _, _, _, _, hm, hk => by
    rw [List.forall_mem_cons] at hn
    exact (runs_assignName h hn.1 hm hk).bind fun τ _ _ ht hk =>
      runs_assignNames rest hn.2 (h.value_later ht hm) hk

/-- The taint that was assigned, in two runs. -/
structure Assigned (c : Coupling) (σ : Worlds) (a b : Taint × Taint) : Prop where
  value : c.Value σ a.1 b.1
  control : c.Control σ a.2 b.2

/-- Two runs of an assignment whose sites are allowed assign related taints. -/
theorem Stores.assigns {targets : List Target} {value : Expr} {spot : Spot}
    (hs : ∀ site ∈ targets.flatMap (·.sites spot) ++ value.sites, allowed site) (σ : Worlds) :
    c.Runs σ c.Assigned (Eval.assign c.edition targets value spot) (Eval.assign c.edition' targets value spot) := by
  rw [List.forall_mem_append] at hs
  refine (runs_clean h.toReads).bind fun τ _ _ _ hm => ?_
  refine (runs_takeTargets h targets hs.1 [] hm (List.forall_mem_nil _)).bind fun υ a b _ ht => ?_
  obtain ⟨m, names⟩ := a
  obtain ⟨m', names'⟩ := b
  obtain ⟨hm, rfl, hn⟩ := ht
  refine (h.toReads.evaluate value hs.2 .value (fun he => by cases he) υ).bind fun φ _ _ hf he => ?_
  have hm := h.value_combine (h.value_later hf hm) (h.value_stored he)
  refine (runs_clean h.toReads).bind fun χ _ _ hx hk => ?_
  refine (h.toReads.evaluate value hs.2 .control (fun he => by cases he) χ).bind fun ψ _ _ hp he' => ?_
  have hk := h.control_combine (h.control_later hp (h.pending_control (h.value_pending hk))) he'
  refine (runs_assignNames h names hn (h.value_later (c.trans hx hp) hm) hk).bind fun ω _ _ _ hmk => ?_
  exact .pure fun _ => ⟨hmk.1, hmk.2⟩

theorem Stores.enterTest {test : Expr} (hs : ∀ site ∈ test.sites, allowed site) (ht : ∀ x ∈ test.tested, c.Learns x)
    (σ : Worlds) : c.Runs σ Any (Eval.enterTest c.edition test) (Eval.enterTest c.edition' test) := by
  refine (h.toReads.evaluate test hs .condition (fun _ => ht) σ).bind fun τ _ _ _ hm => ?_
  refine (h.toReads.evaluate test hs .control (fun he => by cases he) τ).bind fun υ _ _ hu hk =>
    .path fun hυ => .setPath fun _ => ?_
  have hm := h.pending_control (h.value_pending (h.value_later hu hm))
  exact h.push hυ (h.control_combine (h.control_combine (h.pending_control (h.current hυ)) hk) hm)

theorem Stores.enterItem {target : Target} {iter : Expr} {spot : Spot}
    (hs : ∀ site ∈ target.sites spot ++ iter.sites, allowed site) (σ : Worlds) :
    c.Runs σ Any (Eval.enterItem c.edition target iter spot) (Eval.enterItem c.edition' target iter spot) := by
  have hs : ∀ site ∈ [target].flatMap (·.sites spot) ++ iter.sites, allowed site := by
    rw [List.flatMap_singleton]
    exact hs
  refine (h.assigns hs σ).bind fun τ a b _ hmk => .path fun hτ => .setPath fun _ => ?_
  have hm := h.pending_control (h.value_pending hmk.value)
  exact h.push hτ (h.control_combine (h.control_combine (h.pending_control (h.current hτ)) hmk.control) hm)

end Assignments

section

variable [SetOrder] {allowed : Site → Prop} (h : c.Writes allowed)

include h

theorem runs_assign {targets : List Target} {value : Expr} {spot : Spot}
    (hs : ∀ site ∈ targets.flatMap (·.sites spot) ++ value.sites, allowed site) (σ : Worlds) :
    c.Runs σ c.Assigned (Eval.assign c.edition targets value spot) (Eval.assign c.edition' targets value spot) :=
  h.toStores.assigns hs σ

theorem runs_enterTest {test : Expr} (hs : ∀ site ∈ test.sites, allowed site) (σ : Worlds) :
    c.Runs σ Any (Eval.enterTest c.edition test) (Eval.enterTest c.edition' test) :=
  h.toStores.enterTest hs (h.toLawful.learns hs) σ

theorem runs_enterItem {target : Target} {iter : Expr} {spot : Spot}
    (hs : ∀ site ∈ target.sites spot ++ iter.sites, allowed site) (σ : Worlds) :
    c.Runs σ Any (Eval.enterItem c.edition target iter spot) (Eval.enterItem c.edition' target iter spot) :=
  h.toStores.enterItem hs σ

end

end Coupling

end TaintFlow
