import TaintFlow.Proofs.Coupling

/-
Invariants of one run of the evaluator. A `Discipline` is the coupling of a run with itself: an
invariant of worlds and of labels, which may depend on how far the run has come. If the primitive steps
keep it, so does every expression and every assignment.
-/
namespace TaintFlow

/-- A kind of flow that the analysis knows: values are flagged as explicit, control labels as implicit. -/
def FlowKind.Known (kind : FlowKind) : Prop := kind = .explicit ∨ kind = .implicit

/-- An invariant of one run, and how its worlds may move on. -/
structure Discipline where
  edition : Edition
  Inv : World → Prop
  Later : World → World → Prop
  /-- Explicit labels while they are computed. -/
  Value : World → Taint → Prop
  /-- All other labels. -/
  Stored : World → Taint → Prop
  refl : ∀ w, Later w w
  trans : ∀ {u v w}, Later u v → Later v w → Later u w

namespace Discipline

variable (d : Discipline)

/-- The run beside itself. -/
def coupling : Coupling where
  edition := d.edition
  edition' := d.edition
  Linked σ := ∃ w, σ = (w, w) ∧ d.Inv w
  Later σ τ := d.Later σ.1 τ.1
  Value σ m m' := m = m' ∧ d.Value σ.1 m
  Stored σ m m' := m = m' ∧ d.Stored σ.1 m
  Pending σ m m' := m = m' ∧ d.Stored σ.1 m
  Control σ m m' := m = m' ∧ d.Stored σ.1 m
  refl σ := d.refl σ.1
  trans := d.trans

/-- The step keeps the invariant, and its result is as asked. -/
def Holds {α : Type} (w : World) (Q : World → α → Prop) (x : Eval α) : Prop :=
  d.Inv w → d.Inv (x.run w).2 ∧ d.Later w (x.run w).2 ∧ ∀ a, (x.run w).1 = .ok a → Q (x.run w).2 a

/-- The invariant goes on with this path. -/
def Moves (w : World) (p : Path) : Prop := d.Inv { w with path := p } ∧ d.Later w { w with path := p }

variable {d}

theorem Holds.runs {α : Type} {σ : Worlds} {Q : World → α → Prop} {x : Eval α} (h : d.Holds σ.1 Q x) :
    d.coupling.Runs σ (fun τ a b => a = b ∧ Q τ.1 a) x x := by
  rintro ⟨w, rfl, hinv⟩
  obtain ⟨hv, hl, hq⟩ := h hinv
  dsimp only at hv hl hq ⊢
  generalize x.run w = r at hv hl hq ⊢
  obtain ⟨r, v⟩ := r
  cases r with
  | error f => exact .error ⟨v, rfl, hv⟩ hl
  | ok a => exact .ok ⟨rfl, hq a rfl⟩ ⟨v, rfl, hv⟩ hl

theorem holds_of_runs {α : Type} {w : World} {Q : Worlds → α → α → Prop} {R : World → α → Prop} {x : Eval α}
    (h : d.coupling.Runs (w, w) Q x x) (hR : ∀ τ a b, Q τ a b → R τ.1 a) : d.Holds w R x := by
  intro hinv
  have h := h ⟨w, rfl, hinv⟩
  dsimp only at h
  generalize x.run w = r at h ⊢
  obtain ⟨r, v⟩ := r
  cases h with
  | error hl ht =>
    obtain ⟨u, hu, hinv⟩ := hl
    cases hu
    exact ⟨hinv, ht, fun a ha => by cases ha⟩
  | ok hq hl ht =>
    obtain ⟨u, hu, hinv⟩ := hl
    cases hu
    refine ⟨hinv, ht, fun a ha => ?_⟩
    cases ha
    exact hR _ _ _ hq

open Coupling (Mentioned Exposed Consulted)

/-- The primitive steps of expressions keep the invariant, at the sites that are allowed. -/
structure Lawful [SetOrder] (d : Discipline) (allowed : Site → Prop) : Prop where
  value_later : ∀ {v w m}, d.Later v w → d.Value v m → d.Value w m
  stored_later : ∀ {v w m}, d.Later v w → d.Stored v m → d.Stored w m
  value_stored : ∀ {w m}, d.Value w m → d.Stored w m
  value_combine : ∀ {w a b}, d.Value w a → d.Stored w b → d.Value w (a.combine b)
  stored_combine : ∀ {w a b}, d.Stored w a → d.Stored w b → d.Stored w (a.combine b)
  clean : ∀ {w}, d.Inv w → d.Value w w.path.clean
  label : ∀ {w x m}, d.Inv w → w.path.labels.get? x = some m → d.Stored w m
  left : ∀ {w x m}, d.Inv w → w.path.controlLabels.get? x = some m → d.Stored w m
  control : ∀ {w m}, d.Inv w → m ∈ w.path.control → d.Stored w m
  source : ∀ {w x spot m}, d.Inv w → Mentioned allowed x spot → d.Value w m →
    d.Value w (w.path.addSource m x (d.edition.place spot w.path.scope))
  sanitized : ∀ {w r f spot m}, d.Inv w → allowed (.call r f spot) → d.Value w m →
    d.Value w (m.addSanitizer w.path.view f spot.line)
  sanitized_stored : ∀ {w r f spot m}, d.Inv w → allowed (.call r f spot) → d.Stored w m →
    d.Stored w (m.addSanitizer w.path.view f spot.line)
  discover : ∀ {w x}, d.Inv w → Consulted allowed x → x ∉ w.path.initialized →
    d.Moves w ((w.path.discover x).markInitialized x)
  discoverImplicit : ∀ {w x}, d.Inv w → Consulted allowed x → x ∉ w.path.initialized →
    d.Moves w (w.path.discoverImplicit x)
  fill : ∀ {w x}, d.Inv w → Consulted allowed x → x ∈ w.path.initialized → w.path.labels.get? x = none →
    d.Moves w { w.path with labels := w.path.labels.update x w.path.clean }
  flag : ∀ {w x spot m kind}, FlowKind.Known kind → Exposed allowed x spot → d.Stored w m →
    d.Holds w (fun _ _ => True) (Eval.flag d.edition x spot m kind)

/-- The steps of assignments and of entering a region keep the invariant, too. -/
structure Writes [SetOrder] (d : Discipline) (allowed : Site → Prop) : Prop extends d.Lawful allowed where
  mark : ∀ {w x spot}, d.Inv w → allowed (.assigned x spot) → d.Moves w (w.path.markInitialized x)
  assign : ∀ {w x spot m k}, d.Inv w → allowed (.assigned x spot) → d.Value w m → d.Stored w k →
    d.Moves w { w.path with labels := w.path.labels.update x m, controlLabels := w.path.controlLabels.update x k }
  push : ∀ {w k}, d.Inv w → d.Stored w k → d.Moves w (w.path.push k)

theorem rel_self {α : Type} {R : α → Prop} (o : Option α) (h : ∀ a, o = some a → R a) :
    Option.Rel (fun a b => a = b ∧ R a) o o := by
  cases o with
  | none => exact .none
  | some a => exact .some ⟨rfl, h a rfl⟩

theorem Lawful.stored_foldl [SetOrder] {allowed : Site → Prop} (h : d.Lawful allowed) {w : World} {l : List Taint} :
    ∀ {a : Taint}, (∀ m ∈ l, d.Stored w m) → d.Stored w a → d.Stored w (l.foldl MultiLabel.combine a) := by
  induction l with
  | nil => exact fun _ ha => ha
  | cons m l ih =>
    intro a hl ha
    rw [List.forall_mem_cons] at hl
    exact ih hl.2 (h.stored_combine ha hl.1)

theorem Lawful.coupling [SetOrder] {allowed : Site → Prop} (h : d.Lawful allowed) : d.coupling.Lawful allowed where
  value_later ht hm := ⟨hm.1, h.value_later ht hm.2⟩
  pending_later ht hm := ⟨hm.1, h.stored_later ht hm.2⟩
  control_later ht hm := ⟨hm.1, h.stored_later ht hm.2⟩
  value_stored hm := ⟨hm.1, h.value_stored hm.2⟩
  value_pending hm := ⟨hm.1, h.value_stored hm.2⟩
  pending_control hm := hm
  value_combine := by
    rintro σ a _ b _ ⟨rfl, ha⟩ ⟨rfl, hb⟩
    exact ⟨rfl, h.value_combine ha hb⟩
  pending_combine := by
    rintro σ a _ b _ ⟨rfl, ha⟩ ⟨rfl, hb⟩
    exact ⟨rfl, h.stored_combine ha hb⟩
  control_combine := by
    rintro σ a _ b _ ⟨rfl, ha⟩ ⟨rfl, hb⟩
    exact ⟨rfl, h.stored_combine ha hb⟩
  initialized := by
    rintro _ ⟨w, rfl, hw⟩ x
    exact Iff.rfl
  clean := by
    rintro _ ⟨w, rfl, hw⟩
    exact ⟨rfl, h.clean hw⟩
  label := by
    rintro _ ⟨w, rfl, hw⟩ x
    exact rel_self _ fun m hm => h.label hw hm
  left := by
    rintro _ ⟨w, rfl, hw⟩ x
    exact Coupling.rel_getD (rel_self _ fun m hm => h.left hw hm) ⟨rfl, h.value_stored (h.clean hw)⟩
  current := by
    rintro _ ⟨w, rfl, hw⟩
    exact ⟨rfl, h.stored_foldl (fun m hm => h.control hw hm) (h.value_stored (h.clean hw))⟩
  source := by
    rintro _ x spot m _ ⟨w, rfl, hw⟩ hx ⟨rfl, hm⟩
    exact ⟨rfl, h.source hw hx hm⟩
  known := by
    rintro _ x spot m _ ⟨w, rfl, hw⟩ hx ⟨rfl, hm⟩
    refine ⟨rfl, ?_⟩
    show d.Value w (w.path.addKnownSource d.edition m x spot)
    unfold Path.addKnownSource
    split
    · exact h.source hw hx hm
    · exact hm
  sanitized := by
    rintro _ r f spot m _ ⟨w, rfl, hw⟩ hs ⟨rfl, hm⟩
    refine ⟨rfl, ?_⟩
    show d.Value w (w.path.sanitize m f spot.line)
    unfold Path.sanitize
    split
    · exact h.sanitized hw hs hm
    · exact hm
  sanitized_pending := by
    rintro _ r f spot m _ ⟨w, rfl, hw⟩ hs ⟨rfl, hm⟩
    refine ⟨rfl, ?_⟩
    show d.Stored w (w.path.sanitize m f spot.line)
    unfold Path.sanitize
    split
    · exact h.sanitized_stored hw hs hm
    · exact hm
  discover := by
    rintro _ x ⟨w, rfl, hw⟩ hx hi
    obtain ⟨hv, hl⟩ := h.discover hw hx hi
    exact ⟨⟨_, rfl, hv⟩, hl⟩
  discoverImplicit := by
    rintro _ x ⟨w, rfl, hw⟩ hx hi
    obtain ⟨hv, hl⟩ := h.discoverImplicit hw hx hi
    exact ⟨⟨_, rfl, hv⟩, hl⟩
  fill := by
    rintro _ x ⟨w, rfl, hw⟩ hx hi hn -
    obtain ⟨hv, hl⟩ := h.fill hw hx hi hn
    exact ⟨⟨_, rfl, hv⟩, hl⟩
  flag := by
    rintro σ x spot m _ hx ⟨rfl, hm⟩
    exact (h.flag (.inl rfl) hx (h.value_stored hm)).runs.imp fun _ _ _ _ => trivial
  flag_control := by
    rintro σ x spot m _ hx ⟨rfl, hm⟩
    exact (h.flag (.inr rfl) hx hm).runs.imp fun _ _ _ _ => trivial

theorem Writes.coupling [SetOrder] {allowed : Site → Prop} (h : d.Writes allowed) : d.coupling.Writes allowed where
  toLawful := h.toLawful.coupling
  mark := by
    rintro _ x spot ⟨w, rfl, hw⟩ hx
    obtain ⟨hv, hl⟩ := h.mark hw hx
    exact ⟨⟨_, rfl, hv⟩, hl⟩
  assign := by
    rintro _ x spot m _ k _ ⟨w, rfl, hw⟩ hx ⟨rfl, hm⟩ ⟨rfl, hk⟩
    obtain ⟨hv, hl⟩ := h.assign hw hx hm hk
    exact ⟨⟨_, rfl, hv⟩, hl⟩
  before := by
    rintro _ ⟨w, rfl, hw⟩ x
    exact Coupling.rel_before h.toLawful.coupling.control_combine (rel_self _ fun m hm => h.left hw hm)
      (h.toLawful.coupling.current ⟨w, rfl, hw⟩)
  push := by
    rintro _ k _ ⟨w, rfl, hw⟩ ⟨rfl, hk⟩
    obtain ⟨hv, hl⟩ := h.push hw hk
    exact ⟨⟨_, rfl, hv⟩, hl⟩

/-- Evaluating an expression whose sites are allowed keeps the invariant. -/
theorem Lawful.evaluate [SetOrder] {allowed : Site → Prop} (h : d.Lawful allowed) {e : Expr}
    (hs : ∀ site ∈ e.sites, allowed site) (context : Context) (w : World) :
    d.Holds w (fun v m => if context = .control then d.Stored v m else d.Value v m)
      (e.evaluate d.edition context) := by
  refine holds_of_runs (Coupling.runs_evaluate h.coupling e hs context (w, w)) fun τ a b hab => ?_
  split
  · rename_i hc
    subst hc
    exact hab.2
  · rename_i hc
    rw [Coupling.result_eq hc] at hab
    exact hab.2

theorem Writes.assigns [SetOrder] {allowed : Site → Prop} (h : d.Writes allowed) {targets : List Target} {value : Expr}
    {spot : Spot} (hs : ∀ site ∈ targets.flatMap (·.sites spot) ++ value.sites, allowed site) (w : World) :
    d.Holds w (fun _ _ => True) (Eval.assign d.edition targets value spot) :=
  holds_of_runs (Coupling.runs_assign h.coupling hs (w, w)) fun _ _ _ _ => trivial

theorem Writes.enterTest [SetOrder] {allowed : Site → Prop} (h : d.Writes allowed) {test : Expr}
    (hs : ∀ site ∈ test.sites, allowed site) (w : World) :
    d.Holds w (fun _ _ => True) (Eval.enterTest d.edition test) :=
  holds_of_runs (Coupling.runs_enterTest h.coupling hs (w, w)) fun _ _ _ _ => trivial

theorem Writes.enterItem [SetOrder] {allowed : Site → Prop} (h : d.Writes allowed) {target : Target} {iter : Expr}
    {spot : Spot} (hs : ∀ site ∈ target.sites spot ++ iter.sites, allowed site) (w : World) :
    d.Holds w (fun _ _ => True) (Eval.enterItem d.edition target iter spot) :=
  holds_of_runs (Coupling.runs_enterItem h.coupling hs (w, w)) fun _ _ _ _ => trivial

end Discipline

end TaintFlow
