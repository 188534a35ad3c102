import TaintFlow.Proofs.Discipline
import TaintFlow.Proofs.Filing

/-
What evaluating an expression can change. A path grows: the control stack, what conditions left on the
variables and the nesting level stay, variables keep their labels, and only names that the expression
reads become sources or count as assigned; a variable counts as assigned by being read only if it has
become a source of every pattern. A report keeps what is recorded.

This holds in every context, whatever the labels hold, and also when a fault stops the evaluation.
-/
namespace TaintFlow

open Listing

/-! ## Patterns that find sources -/

namespace Pattern

/-- The pattern may have found more sources, among the names of `N`. -/
structure Grows (N : String → Prop) (a b : Pattern) : Prop where
  bare : a.bare = b.bare
  sources : ∀ s ∈ a.sources, s ∈ b.sources
  new : ∀ s ∈ b.sources, s ∈ a.sources ∨ N s

variable {N : String → Prop} {a b d : Pattern}

theorem Grows.refl (a : Pattern) : a.Grows N a := ⟨rfl, fun _ h => h, fun _ h => .inl h⟩

theorem Grows.trans (h : a.Grows N b) (h' : b.Grows N d) : a.Grows N d := by
  refine ⟨h.bare.trans h'.bare, fun s hs => h'.sources s (h.sources s hs), fun s hs => ?_⟩
  rcases h'.new s hs with hs | hs
  · exact h.new s hs
  · exact .inr hs

theorem Grows.mono {M : String → Prop} (h : a.Grows N b) (hM : ∀ x, N x → M x) : a.Grows M b :=
  ⟨h.bare, h.sources, fun s hs => (h.new s hs).imp id (hM s)⟩

theorem grows_addSource {x : String} (hx : N x) (a : Pattern) : a.Grows N (a.addSource x) := by
  refine ⟨rfl, fun s hs => mem_adjoin.2 (.inl hs), fun s hs => ?_⟩
  rcases mem_adjoin.1 hs with hs | rfl
  · exact .inl hs
  · exact .inr hx

theorem map_bare_of_grows {l m : List Pattern} (h : List.Forall₂ (Grows N) l m) : m.map bare = l.map bare := by
  induction h with
  | nil => rfl
  | cons hab _ ih => rw [List.map_cons, List.map_cons, ih, hab.bare]

theorem getD_grows {l m : List Pattern} (h : List.Forall₂ (Grows N) l m) :
    ∀ i : Nat, (l.getD i default).Grows N (m.getD i default) := by
  induction h with
  | nil => exact fun _ => .refl _
  | cons hab _ ih =>
    intro i
    cases i with
    | zero => exact hab
    | succ i => exact ih i

end Pattern

/-! ## Paths and worlds that grow -/

/-- What may have happened to a path since names of `N` were read. -/
structure Path.Grows (N : String → Prop) (p q : Path) : Prop where
  control : q.control = p.control
  controlLabels : q.controlLabels = p.controlLabels
  scope : q.scope = p.scope
  patterns : List.Forall₂ (Pattern.Grows N) p.patterns q.patterns
  initialized : ∀ x ∈ p.initialized, x ∈ q.initialized
  /-- A variable that has come to count as assigned is a source of every pattern. -/
  found : ∀ x ∈ q.initialized, x ∈ p.initialized ∨ (N x ∧ ∀ a ∈ q.patterns, x ∈ a.sources)
  labels : ∀ x m, p.labels.get? x = some m → q.labels.get? x = some m
  /-- A new label has no flows. -/
  filled : ∀ x m, q.labels.get? x = some m →
    p.labels.get? x = some m ∨ (N x ∧ x ∈ q.initialized ∧ m = p.clean)

/-- What may have happened to a world since names of `N` were read. -/
structure World.Grows (N : String → Prop) (w v : World) : Prop where
  path : w.path.Grows N v.path
  report : ∀ s kind marks, w.report.Recorded s kind marks → v.report.Recorded s kind marks

theorem forall₂_mem_right {α β : Type} {R : α → β → Prop} {l : List α} {m : List β} (h : List.Forall₂ R l m) :
    ∀ b ∈ m, ∃ a ∈ l, R a b := by
  induction h with
  | nil => exact List.forall_mem_nil _
  | cons hab _ ih =>
    intro b hb
    rcases List.mem_cons.1 hb with rfl | hb
    · exact ⟨_, List.mem_cons_self .., hab⟩
    · obtain ⟨a, ha, hr⟩ := ih b hb
      exact ⟨a, List.mem_cons_of_mem _ ha, hr⟩

namespace Path

variable {N : String → Prop} {p q r : Path}

theorem Grows.map_bare (h : p.Grows N q) : q.patterns.map Pattern.bare = p.patterns.map Pattern.bare :=
  Pattern.map_bare_of_grows h.patterns

theorem Grows.clean (h : p.Grows N q) : q.clean = p.clean := clean_eq h.map_bare

theorem Grows.view_own (h : p.Grows N q) (i : Nat) : (p.view (.own i)).Grows N (q.view (.own i)) :=
  Pattern.getD_grows h.patterns i

theorem Grows.refl (p : Path) : p.Grows N p where
  control := rfl
  controlLabels := rfl
  scope := rfl
  patterns := List.forall₂_same.2 fun a _ => .refl a
  initialized := fun _ h => h
  found := fun _ h => .inl h
  labels := fun _ _ h => h
  filled := fun _ _ h => .inl h

theorem Grows.trans (h : p.Grows N q) (h' : q.Grows N r) : p.Grows N r where
  control := h'.control.trans h.control
  controlLabels := h'.controlLabels.trans h.controlLabels
  scope := h'.scope.trans h.scope
  patterns := Accord.forall₂_trans (fun _ _ _ => .trans) h.patterns h'.patterns
  initialized := fun x hx => h'.initialized x (h.initialized x hx)
  found := fun x hx => by
    rcases h'.found x hx with hx | hx
    · rcases h.found x hx with hx | ⟨hn, hs⟩
      · exact .inl hx
      · -- sources that were found stay
        refine .inr ⟨hn, fun a ha => ?_⟩
        obtain ⟨b, hb, hba⟩ := forall₂_mem_right h'.patterns a ha
        exact hba.sources x (hs b hb)
    · exact .inr hx
  labels := fun x m hx => h'.labels x m (h.labels x m hx)
  filled := fun x m hx => by
    rcases h'.filled x m hx with hx | ⟨hn, hi, hm⟩
    · exact (h.filled x m hx).imp id fun ⟨hn, hi, hm⟩ => ⟨hn, h'.initialized x hi, hm⟩
    · exact .inr ⟨hn, hi, hm.trans h.clean⟩

theorem Grows.mono {M : String → Prop} (h : p.Grows N q) (hM : ∀ x, N x → M x) : p.Grows M q :=
  { h with
    patterns := h.patterns.imp fun _ _ hab => hab.mono hM
    found := fun x hx => (h.found x hx).imp id fun ⟨hn, hs⟩ => ⟨hM x hn, hs⟩
    filled := fun x m hx => (h.filled x m hx).imp id fun ⟨hn, hi⟩ => ⟨hM x hn, hi⟩ }

theorem grows_map {x : String} (hx : N x) {f : Pattern → Pattern} (hf : ∀ a, f a = a.addSource x ∨ f a = a)
    (p : Path) : p.Grows N { p with patterns := p.patterns.map f } where
  control := rfl
  controlLabels := rfl
  scope := rfl
  patterns := List.forall₂_map_right_iff.2 (List.forall₂_same.2 fun a _ => by
    rcases hf a with ha | ha <;> rw [ha]
    · exact Pattern.grows_addSource hx a
    · exact .refl a)
  initialized := fun _ h => h
  found := fun _ h => .inl h
  labels := fun _ _ h => h
  filled := fun _ _ h => .inl h

theorem grows_discoverImplicit {x : String} (hx : N x) (p : Path) : p.Grows N (p.discoverImplicit x) := by
  refine grows_map hx (fun a => ?_) p
  cases a.implicit with
  | true => exact .inl rfl
  | false => exact .inr rfl

theorem grows_discover {x : String} (hx : N x) (p : Path) : p.Grows N ((p.discover x).markInitialized x) := by
  refine { grows_map hx (fun a => .inl rfl) p with initialized := ?_, found := ?_, filled := ?_ }
  · exact fun y hy => mem_adjoin.2 (.inl hy)
  · intro y hy
    rcases mem_adjoin.1 hy with hy | rfl
    · exact .inl hy
    · refine .inr ⟨hx, fun a ha => ?_⟩
      obtain ⟨b, -, rfl⟩ := List.mem_map.1 ha
      exact mem_adjoin.2 (.inr rfl)
  · exact fun y m hm => .inl hm

theorem grows_fill {x : String} (hx : N x) (hi : x ∈ p.initialized) (hn : p.labels.get? x = none) :
    p.Grows N { p with labels := p.labels.update x p.clean } := by
  refine { Grows.refl p with labels := fun y m hy => ?_, filled := fun y m hy => ?_ }
  · have hne : y ≠ x := fun he => by rw [he, hn] at hy; cases hy
    show (p.labels.update x p.clean).get? y = some m
    rw [Labelling.get?_update_of_ne _ hne]
    exact hy
  · by_cases he : y = x
    · subst he
      have hy : (p.labels.update y p.clean).get? y = some m := hy
      rw [Labelling.get?_update_self] at hy
      exact .inr ⟨hx, hi, (Option.some.inj hy).symm⟩
    · have hy : (p.labels.update x p.clean).get? y = some m := hy
      rw [Labelling.get?_update_of_ne _ he] at hy
      exact .inl hy

end Path

namespace World

variable {N : String → Prop} {u v w : World}

theorem Grows.refl (w : World) : w.Grows N w := ⟨.refl _, fun _ _ _ h => h⟩

theorem Grows.trans (h : u.Grows N v) (h' : v.Grows N w) : u.Grows N w :=
  ⟨h.path.trans h'.path, fun s kind marks hr => h'.report s kind marks (h.report s kind marks hr)⟩

theorem Grows.mono {M : String → Prop} (h : v.Grows N w) (hM : ∀ x, N x → M x) : v.Grows M w :=
  ⟨h.path.mono hM, h.report⟩

end World

/-! ## Expressions -/

/-- Flagging leaves the path as it is, and keeps what is recorded. -/
theorem Eval.grows_flag [SetOrder] {N : String → Prop} (edition : Edition) (sink : String) (spot : Spot) (m : Taint)
    (kind : FlowKind) (w : World) : w.Grows N ((Eval.flag edition sink spot m kind).run w).2 := by
  rw [Eval.run_flag]
  split
  · exact .refl w
  · exact ⟨.refl _, Report.files_add.keeps w.report⟩

/-- An accord for the labels of a policy that allows everything. -/
def Accord.lax (edition : Edition) (policy : List Pattern) : Accord where
  edition := edition
  policy := policy
  strict := False
  full := False
  clear := False
  name := fun _ => True
  flow := fun _ _ _ => True
  ref := fun _ _ => True

namespace Discipline

/-- Worlds of a policy grow, and labels that are computed follow the patterns of their paths. -/
def growth (edition : Edition) (policy : List Pattern) (N : String → Prop) : Discipline where
  edition := edition
  Inv w := w.path.patterns.map Pattern.bare = policy.map Pattern.bare
  Later := World.Grows N
  Value _ := (Accord.lax edition policy).Fresh
  Stored _ _ := True
  refl := .refl
  trans := .trans

theorem lawful_growth [SetOrder] (edition : Edition) (policy : List Pattern) (N : String → Prop) :
    (growth edition policy N).Lawful fun site => ∀ x ∈ site.reads, N x := by
  have hmoves : ∀ {w : World} {p : Path}, (growth edition policy N).Inv w → w.path.Grows N p →
      (growth edition policy N).Moves w p := fun hw h => ⟨h.map_bare.trans hw, h, fun _ _ _ hr => hr⟩
  have hread : ∀ {x : String}, Coupling.Consulted (fun site => ∀ x ∈ site.reads, N x) x → N x :=
    fun ⟨_, hs, hx⟩ => hs _ hx
  constructor
  case value_later => exact fun _ hm => hm
  case stored_later => exact fun _ hm => hm
  case value_stored => exact fun _ => trivial
  case value_combine => exact fun ha _ => ha.combine _
  case stored_combine => exact fun _ _ => trivial
  case clean =>
    intro w hw
    show (Accord.lax edition policy).Fresh w.path.clean
    rw [Path.clean_eq (q := Path.start policy) hw]
    exact Accord.fresh_blank
  case label => exact fun _ _ => trivial
  case left => exact fun _ _ => trivial
  case control => exact fun _ _ => trivial
  case source => exact fun _ _ hm => hm.addSource _ _ _
  case sanitized => exact fun _ _ hm => hm.addSanitizer _ _ _
  case sanitized_stored => exact fun _ _ _ => trivial
  case discover => exact fun hw hx _ => hmoves hw (Path.grows_discover (hread hx) _)
  case discoverImplicit => exact fun hw hx _ => hmoves hw (Path.grows_discoverImplicit (hread hx) _)
  case fill => exact fun hw hx hi hn => hmoves hw (Path.grows_fill (hread hx) hi hn)
  case flag =>
    intro w x spot m kind _ _ _ hw
    have hgrows := Eval.grows_flag (N := N) edition x spot m kind w
    exact ⟨hgrows.path.map_bare.trans hw, hgrows, fun _ _ => trivial⟩

end Discipline

/-- The names of the variables that an expression reads. -/
def Expr.Reads (e : Expr) (x : String) : Prop := ∃ site ∈ e.sites, x ∈ site.reads

/-- Evaluating an expression makes the world grow by the variables that the expression reads. -/
theorem Expr.grows_evaluate [SetOrder] (edition : Edition) (e : Expr) (context : Context) (w : World) :
    w.Grows e.Reads ((e.evaluate edition context).run w).2 :=
  ((Discipline.lawful_growth edition w.path.patterns e.Reads).evaluate (fun site hs _ hx => ⟨site, hs, hx⟩)
    context w rfl).2.1

end TaintFlow
