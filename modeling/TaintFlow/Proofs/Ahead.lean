import TaintFlow.Proofs.Intake

/-
Evaluations from a path that is ahead of another. Such a path has all sources, all assigned variables and all flows of
the other, and a variable that counts as assigned only there is a source of every pattern. So a name that is read brings
in as much on the path ahead as on the path behind, and so does every expression: what is read on the way makes both
paths grow in step.

The exception is the variable that a method is called on. It brings in a flow only if it does not count as assigned yet,
so none of them may be known only to the path ahead.
-/
namespace TaintFlow

open Listing

namespace Path

variable {N R : String → Prop} {p p' q q' : Path} {x : String}

/-! ## Variables that are looked up -/

/-- The variable `x` was looked up: it counts as assigned, and if it did so before, no source was found. -/
structure Meets (x : String) (p q : Path) : Prop where
  grows : p.Grows (· = x) q
  initialized : x ∈ q.initialized
  patterns : x ∈ p.initialized → q.patterns = p.patterns

theorem meets_discover (hx : x ∉ p.initialized) : p.Meets x ((p.discover x).markInitialized x) where
  grows := grows_discover (N := (· = x)) rfl p
  initialized := mem_adjoin.2 (.inr rfl)
  patterns := fun h => absurd h hx

theorem meets_read (p : Path) (x : String) : p.Meets x (p.read x .value) := by
  unfold read
  by_cases hx : x ∈ p.initialized
  · rw [if_neg (not_not_intro hx)]
    split
    · exact ⟨.refl p, hx, fun _ => rfl⟩
    · rename_i hfill
      have hn : p.labels.get? x = none := by
        rw [← Option.not_isSome_iff_eq_none]
        exact fun h => hfill (.inr h)
      exact ⟨grows_fill rfl hx hn, hx, fun _ => rfl⟩
  · rw [if_pos hx, if_pos rfl]
    exact meets_discover hx

theorem grows_consult (p : Path) (r : String) : p.Grows (· = r) (p.consult r) := by
  unfold consult
  split
  · exact grows_discover (N := (· = r)) rfl p
  · exact .refl p

theorem meets_consult (p : Path) {r : String} (hr : r ≠ "") : p.Meets r (p.consult r) := by
  refine ⟨p.grows_consult r, ?_, fun hx => ?_⟩
  · unfold consult
    split
    · exact mem_adjoin.2 (.inr rfl)
    · rename_i h
      exact not_not.1 fun hx => h ⟨hr, hx⟩
  · rw [consult, if_neg fun h => h.2 hx]

/-! ## Paths ahead -/

/-- The second path is ahead of the first, but has not looked up any more of the variables of `R`. -/
structure Behind (R : String → Prop) (p q : Path) : Prop where
  bare : q.patterns.map Pattern.bare = p.patterns.map Pattern.bare
  scope : q.scope = p.scope
  sources : ∀ i < p.patterns.length, ∀ s ∈ (p.view (.own i)).sources, s ∈ (q.view (.own i)).sources
  initialized : ∀ x ∈ p.initialized, x ∈ q.initialized
  /-- What counts as assigned only ahead is a source. -/
  found : ∀ x ∈ q.initialized, x ∈ p.initialized ∨ ∀ a ∈ q.patterns, x ∈ a.sources
  receivers : ∀ r, R r → r ∈ q.initialized → r ∈ p.initialized
  flows : ∀ {x name s f}, p.Has x name s f → q.Has x name s f

theorem Behind.clean (h : p.Behind R q) : q.clean = p.clean := clean_eq h.bare

theorem Behind.length (h : p.Behind R q) : q.patterns.length = p.patterns.length := by
  simpa using congrArg List.length h.bare

theorem length_of_grows (h : p.Grows N q) : q.patterns.length = p.patterns.length := by
  simpa using congrArg List.length h.map_bare

/-- A path that has grown is ahead, unless it has looked up one of the variables. -/
theorem Grows.behind (h : p.Grows N q) (hR : ∀ r, R r → N r → r ∈ p.initialized) : p.Behind R q where
  bare := h.map_bare
  scope := h.scope
  sources := fun i _ => (h.view_own i).sources
  initialized := h.initialized
  found := fun x hx => (h.found x hx).imp id fun hx => hx.2
  receivers := fun r hr hq => (h.found r hq).elim id fun hn => hR r hr hn.1
  flows := h.has.2

/-- A variable that is looked up on both paths keeps them in order. -/
theorem Behind.meets (h : p.Behind R q) (hp : p.Meets x p') (hq : q.Meets x q') : p'.Behind R q' where
  bare := hq.grows.map_bare.trans (h.bare.trans hp.grows.map_bare.symm)
  scope := hq.grows.scope.trans (h.scope.trans hp.grows.scope.symm)
  sources := by
    intro i hi s hs
    have hi' : i < p.patterns.length := length_of_grows hp.grows ▸ hi
    have hiq : i < q'.patterns.length := by rwa [length_of_grows hq.grows, h.length]
    rcases (hp.grows.view_own i).new s hs with hs | rfl
    · exact (hq.grows.view_own i).sources s (h.sources i hi' s hs)
    · by_cases hx : s ∈ p.initialized
      · have hview : p'.view (.own i) = p.view (.own i) := by rw [view, view, hp.patterns hx]
        rw [hview] at hs
        exact (hq.grows.view_own i).sources s (h.sources i hi' s hs)
      · -- only the path behind finds it now: the path ahead has found it before
        rcases hq.grows.found s hq.initialized with hx' | ⟨-, hall⟩
        · have hall := (h.found s hx').resolve_left hx
          exact (hq.grows.view_own i).sources s (hall _ (view_own_mem (h.length ▸ hi')))
        · exact hall _ (view_own_mem hiq)
  initialized := by
    intro y hy
    rcases hp.grows.found y hy with hy | ⟨rfl, -⟩
    · exact hq.grows.initialized y (h.initialized y hy)
    · exact hq.initialized
  found := by
    intro y hy
    rcases hq.grows.found y hy with hy | ⟨-, hall⟩
    · rcases h.found y hy with hy | hall
      · exact .inl (hp.grows.initialized y hy)
      · refine .inr fun a ha => ?_
        obtain ⟨b, hb, hba⟩ := forall₂_mem_right hq.grows.patterns a ha
        exact hba.sources y (hall b hb)
    · exact .inr hall
  receivers := by
    intro r hr hq'
    rcases hq.grows.found r hq' with hr' | ⟨rfl, -⟩
    · exact hp.grows.initialized r (h.receivers r hr hr')
    · exact hp.initialized
  flows := fun hf => hq.grows.has.2 (h.flows (hp.grows.has.1 hf))

theorem Behind.consult (h : p.Behind R q) (r : String) : (p.consult r).Behind R (q.consult r) := by
  by_cases hr : r = ""
  · have hsame : ∀ p : Path, p.consult r = p := fun p => if_neg fun h => h.1 hr
    rwa [hsame, hsame]
  · exact h.meets (p.meets_consult hr) (q.meets_consult hr)

/-- Reading a name for a control label looks nothing up. -/
theorem read_control (p : Path) (x : String) : p.read x .control = p := by
  unfold read
  split <;> simp

theorem Behind.read (h : p.Behind R q) (x : String) {context : Context} (hc : context = .value ∨ context = .control) :
    (p.read x context).Behind R (q.read x context) := by
  rcases hc with rfl | rfl
  · exact h.meets (p.meets_read x) (q.meets_read x)
  · rwa [read_control, read_control]

end Path

/-! ## Expressions -/

/-- For the patterns of the path, the second label has the flows of the first. -/
def MultiLabel.Within (p : Path) (m n : Taint) : Prop :=
  ∀ name i, p.clean.Refers name i → ∀ s f, m.Has name s f → n.Has name s f

theorem MultiLabel.Within.combine [SetOrder] {p : Path} {a b m n : Taint} (h : a.Within p b) (h' : m.Within p n) :
    (a.combine m).Within p (b.combine n) := by
  intro name i hi s f hf
  rw [has_combine] at hf ⊢
  exact hf.imp (h name i hi s f) (h' name i hi s f)

namespace Expr

variable {edition : Edition} {R : String → Prop}

/-- Evaluated on two paths of which one is ahead, the expression keeps them in order, and as a value it has all flows on
the path ahead that it has on the path behind. -/
def Follows [SetOrder] (edition : Edition) (R : String → Prop) (e : Expr) : Prop :=
  ∀ ⦃context : Context⦄ ⦃w w' u u' : World⦄ ⦃m n : Taint⦄, context = .value ∨ context = .control →
    w.path.Behind R u.path → (e.evaluate edition context).run w = (.ok m, w') →
    (e.evaluate edition context).run u = (.ok n, u') →
    w'.path.Behind R u'.path ∧ (context = .value → m.Within w.path n)

theorem within_iff_of_later {w v : World} {m n : Taint} (h : w.Later v) : m.Within v.path n ↔ m.Within w.path n := by
  unfold MultiLabel.Within
  rw [h.path.clean]

theorem follows_all [SetOrder] {context : Context} (hc : context = .value ∨ context = .control) :
    ∀ {operands : List Expr} {w w' u u' : World} {m n m' n' : Taint}, (∀ e ∈ operands, e.Follows edition R) →
    w.path.Behind R u.path → (context = .value → m.Within w.path n) →
    (Expr.evaluateAll edition context operands m).run w = (.ok m', w') →
    (Expr.evaluateAll edition context operands n).run u = (.ok n', u') →
    w'.path.Behind R u'.path ∧ (context = .value → m'.Within w.path n')
  | [], w, w', u, u', m, n, m', n', _, h, hmn, hw, hu => by
    rw [evaluateAll_nil] at hw hu
    cases hw
    cases hu
    exact ⟨h, hmn⟩
  | e :: rest, w, w', u, u', m, n, m', n', ih, h, hmn, hw, hu => by
    rw [List.forall_mem_cons] at ih
    rw [evaluateAll_cons] at hw hu
    obtain ⟨a, w₁, ha, hw⟩ := Eval.bind_ok hw
    obtain ⟨b, u₁, hb, hu⟩ := Eval.bind_ok hu
    obtain ⟨h₁, hab⟩ := ih.1 hc h ha hb
    have hlater := later_evaluate ha
    have hstart : context = .value → (m.combine a).Within w₁.path (n.combine b) :=
      fun hv => (within_iff_of_later hlater).2 ((hmn hv).combine (hab hv))
    obtain ⟨h', hrest⟩ := follows_all hc ih.2 h₁ hstart hw hu
    exact ⟨h', fun hv => (within_iff_of_later hlater).1 (hrest hv)⟩

theorem follows_args [SetOrder] : ∀ {args : List Expr} {w w' u u' : World} {m n k l m' n' k' l' : Taint},
    (∀ e ∈ args, e.Follows edition R) → w.path.Behind R u.path → m.Within w.path n →
    (Expr.evaluateArgs edition args m k).run w = (.ok (m', k'), w') →
    (Expr.evaluateArgs edition args n l).run u = (.ok (n', l'), u') →
    w'.path.Behind R u'.path ∧ m'.Within w.path n'
  | [], w, w', u, u', m, n, k, l, m', n', k', l', _, h, hmn, hw, hu => by
    rw [Expr.evaluateArgs.eq_def] at hw hu
    cases hw
    cases hu
    exact ⟨h, hmn⟩
  | e :: rest, w, w', u, u', m, n, k, l, m', n', k', l', ih, h, hmn, hw, hu => by
    rw [List.forall_mem_cons] at ih
    rw [Expr.evaluateArgs.eq_def] at hw hu
    obtain ⟨a, w₁, ha, hw⟩ := Eval.bind_ok hw
    obtain ⟨b, u₁, hb, hu⟩ := Eval.bind_ok hu
    obtain ⟨_, w₂, hka, hw⟩ := Eval.bind_ok hw
    obtain ⟨_, u₂, hkb, hu⟩ := Eval.bind_ok hu
    obtain ⟨h₁, hab⟩ := ih.1 (.inl rfl) h ha hb
    obtain ⟨h₂, -⟩ := ih.1 (.inr rfl) h₁ hka hkb
    have hlater := (later_evaluate ha).trans (later_evaluate hka)
    obtain ⟨h', hrest⟩ := follows_args ih.2 h₂ ((within_iff_of_later hlater).2 (hmn.combine (hab rfl))) hw hu
    exact ⟨h', (within_iff_of_later hlater).1 hrest⟩

theorem follows_name [SetOrder] (x : String) (spot : Spot) : (Expr.name x spot).Follows edition R := by
  intro context w w' u u' m n hc h hw hu
  rw [Expr.evaluate.eq_def] at hw hu
  rw [Eval.readName_ok hw, Eval.readName_ok hu]
  refine ⟨h.read x hc, fun hv name i hi s f hf => ?_⟩
  subst hv
  have hi' : u.path.clean.Refers name i := h.clean ▸ hi
  rw [Eval.has_readName hw (by simp) (.inl rfl) hi] at hf
  rw [Eval.has_readName hu (by simp) (.inl rfl) hi', h.scope]
  rcases hf with ⟨hs, hf, hx⟩ | ⟨hx, hf⟩
  · refine .inl ⟨hs, hf, fun hx' => ?_⟩
    by_cases hxw : x ∈ w.path.initialized
    · exact h.sources i (Path.lt_of_refers hi) x (hx hxw)
    · exact (h.found x hx').resolve_left hxw _ (Path.view_own_mem (Path.lt_of_refers hi'))
  · exact .inr ⟨h.initialized x hx, h.flows hf⟩

/-- A receiver brings in the same on both paths if it is one of the variables that the path ahead has not looked up. -/
theorem within_receiver {r : String} {spot : Spot} {w w' u u' : World} {m n : Taint} (hr : r ≠ "" → R r)
    (h : w.path.Behind R u.path) (hw : (Eval.readReceiver edition r spot).run w = (.ok m, w'))
    (hu : (Eval.readReceiver edition r spot).run u = (.ok n, u')) :
    w'.path.Behind R u'.path ∧ m.Within w.path n := by
  obtain ⟨rfl, hm⟩ := Eval.readReceiver_flows hw
  obtain ⟨rfl, hn⟩ := Eval.readReceiver_flows hu
  refine ⟨h.consult r, fun name i hi s f hf => ?_⟩
  have hi' : u.path.clean.Refers name i := h.clean ▸ hi
  obtain ⟨hne, hnew, hs, hf⟩ := (hm hi).1 hf
  exact (hn hi').2 ⟨hne, fun hr' => hnew (h.receivers r (hr hne) hr'), hs, h.scope ▸ hf⟩

theorem follows_call [SetOrder] {r function : String} {args : List Expr} {spot : Spot} (hr : r ≠ "" → R r)
    (ih : ∀ e ∈ args, e.Follows edition R) : (Expr.call r function args spot).Follows edition R := by
  intro context w w' u u' m n hc h hw hu
  obtain ⟨a, w₁, m', k, w₂, hra, hargs, hw', hm⟩ := call_flows hw
  obtain ⟨b, u₁, n', l, u₂, hrb, hargs', hu', hn⟩ := call_flows hu
  obtain ⟨h₁, hab⟩ := within_receiver hr h hra hrb
  have hlater : w.Later w₁ := (readReceiver_ok rfl hra).1
  obtain ⟨h₂, hmn⟩ := follows_args ih h₁ ((within_iff_of_later hlater).2 hab) hargs hargs'
  rw [hw', hu']
  refine ⟨h₂, fun hv name i hi s f hf => ?_⟩
  have hi' : u.path.clean.Refers name i := h.clean ▸ hi
  have hv : context ≠ .control := hv ▸ by simp
  have hlater' : w.Later w₂ := hlater.trans (evaluateArgs_ok hargs (readReceiver_ok rfl hra).2).1
  have hlt : i < w₂.path.patterns.length := Path.lt_of_refers (hlater'.path.clean ▸ hi)
  obtain ⟨g, hg, rfl⟩ := (hm hv hi).1 hf
  refine (hn hv hi').2 ⟨g, ?_, ?_⟩
  · rcases hg with hg | ⟨hs, hg, hsource⟩
    · exact .inl ((within_iff_of_later hlater).1 hmn name i hi s g hg)
    · exact .inr ⟨hs, h₂.scope ▸ hg, h₂.sources i hlt _ hsource⟩
  · exact Pattern.pass_of_bare (Path.view_own_bare h.bare i).symm function spot.line g

theorem Adds.behind {e : Expr} {p q : Path} {name s : String} {i : Nat} {f : Flow} (h : p.Behind R q)
    (hi : i < p.patterns.length) (ha : e.Adds edition p name i s f) : e.Adds edition q name i s f := by
  unfold Adds at ha ⊢
  split at ha
  · exact ha.imp (fun ⟨hs, hf, hx⟩ => ⟨hs, h.scope ▸ hf, h.sources i hi _ hx⟩) h.flows
  · exact ha.elim

theorem follows_compound [SetOrder] {e : Expr} (hcompound : e.compound = true)
    (ih : ∀ part ∈ e.operands, part.Follows edition R) :
    e.Follows edition R := by
  intro context w w' u u' m n hc h hw hu
  obtain ⟨m', w₁, hall, hw', hm⟩ := compound_flows hcompound hw
  obtain ⟨n', u₁, hall', hu', hn⟩ := compound_flows hcompound hu
  have hstart : (w.path.clean).Within w.path u.path.clean :=
    fun name _ _ s f hf => absurd hf (w.path.not_has_clean name s f)
  obtain ⟨h₁, hmn⟩ := follows_all hc ih h (fun _ => hstart) hall hall'
  rw [hw', hu']
  refine ⟨h₁, fun hv name i hi s f hf => ?_⟩
  have hi' : u.path.clean.Refers name i := h.clean ▸ hi
  have hlt : i < w'.path.patterns.length := Path.lt_of_refers ((later_evaluate hw).path.clean ▸ hi)
  rw [hm hi] at hf
  rw [hn hi']
  refine hf.imp (hmn hv name i hi s f) fun ⟨_, ha⟩ => ⟨hv, ha.behind (R := R) ?_ hlt⟩
  rwa [hw', hu']

/-- The expression calls a method of the variable. -/
def Invokes (e : Expr) (r : String) : Prop := r ≠ "" ∧ ∃ function spot, Site.call r function spot ∈ e.sites

/-- An evaluation on a path ahead has the flows of an evaluation on the path behind, if it calls methods only of
variables that the path ahead has not looked up alone. -/
theorem follows [SetOrder] (e : Expr) : (∀ r, e.Invokes r → R r) → e.Follows edition R := by
  induction e using induction_on_parts with | h e ih => ?_
  intro hR
  have ih : ∀ part ∈ e.parts, part.Follows edition R := fun part hpart =>
    ih part hpart fun r ⟨hr, function, spot, hs⟩ => hR r ⟨hr, function, spot, mem_sites_of_mem_parts hpart hs⟩
  cases e with
  | name x spot => exact follows_name x spot
  | call r function args spot => exact follows_call (fun hr => hR r ⟨hr, function, spot, by rw [sites]; simp⟩) ih
  | fails fault =>
    intro context w w' u u' m n hc h hw
    rw [Expr.evaluate.eq_def] at hw
    cases hw
  | _ => exact follows_compound rfl ih

end Expr

end TaintFlow
