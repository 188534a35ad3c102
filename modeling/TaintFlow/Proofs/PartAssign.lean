import TaintFlow.Proofs.AssignFlow

/-
Assignments to a part of a variable. Whatever the target is, the names it stands for lose the flows they had and get
those of the place and of the value. The place of an item is read, so the flows of the variable are among those of the
place, if the variable was assigned. The place of an attribute is not read: `x.attr = e` leaves on `x`, and on `attr`,
the flows of `e` alone.
-/
namespace TaintFlow

namespace Eval

variable {edition : Edition} {spot : Spot} {w v : World}

/-! ## What an assignment leaves on its names -/

theorem has_assignNames [SetOrder] {m : Taint} : ∀ {names : List String} {k k' : Taint} {w v : World},
    (assignNames edition spot m names k).run w = (.ok k', v) → ∀ y name s f,
      (v.path.Has y name s f ↔ if y ∈ names then m.Has name s f else w.path.Has y name s f)
  | [], k, k', w, v, h => by
    cases h
    intro y name s f
    rw [if_neg List.not_mem_nil]
  | x :: rest, k, k', w, v, h => by
    obtain ⟨l, u, hx, h⟩ := bind_ok h
    obtain ⟨-, _, _, -, -, -, hpath⟩ := assignName_ok hx
    intro y name s f
    rw [has_assignNames h y name s f, hpath, Path.has_assign]
    by_cases hrest : y ∈ rest <;> by_cases hy : y = x <;> simp [hrest, hy]

/-- An assignment takes its target, evaluates the value, and gives the flows of both to the names of the target. -/
theorem assign_ok [SetOrder] {t : Target} {value : Expr} {r : Taint × Taint}
    (h : (assign edition [t] value spot).run w = (.ok r, v)) :
    ∃ taken u e u', (takeTarget edition t).run w = (.ok taken, u) ∧
      (value.evaluate edition .value).run u = (.ok e, u') ∧
      ∀ y name s f, v.path.Has y name s f ↔
        if y ∈ taken.2 then taken.1.Has name s f ∨ e.Has name s f else u.path.Has y name s f := by
  unfold assign at h
  rw [run_clean_bind] at h
  obtain ⟨taken', u, htake, h⟩ := bind_ok h
  obtain ⟨taken, u₁, htarget, hrest⟩ := bind_ok htake
  cases hrest
  obtain ⟨e, u', he, h⟩ := bind_ok h
  rw [run_clean_bind] at h
  obtain ⟨k, u₂, hk, h⟩ := bind_ok h
  obtain ⟨k', v', hassign, h⟩ := bind_ok h
  cases h
  refine ⟨taken, u, e, u', htarget, he, fun y name s f => ?_⟩
  have hgrows := ((Expr.later_evaluate he).trans (Expr.later_evaluate hk)).path
  rw [has_assignNames hassign y name s f, MultiLabel.has_combine, Expr.has_clean_combine, hgrows.has]

/-- Reading a variable as a value gives the flows it has if it was assigned, and a raw flow from it if it was not. -/
theorem stored_readName [SetOrder] {x : String} {c : Taint} (h : (readName edition x spot .value).run w = (.ok c, v)) :
    (x ∈ w.path.initialized → ∀ name s f, w.path.Has x name s f → c.Has name s f) ∧
      (x ∉ w.path.initialized → ∀ name s f, c.Has name s f →
        s = x ∧ f = { position := edition.place spot w.path.scope }) := by
  unfold readName at h
  rw [run_path_bind] at h
  constructor
  · rintro hx name s f ⟨l, hl, hf⟩
    rw [if_neg (not_not_intro hx), if_neg (by decide), run_readAssigned] at h
    cases h
    rw [MultiLabel.has_combine, hl]
    exact .inr hf
  · intro hx name s f hc
    rw [if_pos hx] at h
    cases h
    rcases MultiLabel.has_addSource.1 hc with hc | hc
    · exact absurd hc (Path.not_has_clean _ name s f)
    · exact ⟨hc.1, hc.2.1⟩

/-- The place of an item has the flows of the variable as it is read, and those of the index. -/
theorem takeTarget_item_ok [SetOrder] {x : String} {index : Expr} {at_ spot : Spot} {taken : Taint × List String}
    (h : (takeTarget edition (.subscript (some x) (.subscript (.name x at_) index spot))).run w = (.ok taken, v)) :
    ∃ c u i u', (readName edition x at_ .value).run w = (.ok c, u) ∧
      (index.evaluate edition .value).run u = (.ok i, u') ∧
      v.path = u'.path.markInitialized x ∧ taken.2 = [x] ∧
      (∀ name s f, taken.1.Has name s f ↔ c.Has name s f ∨ i.Has name s f) ∧
      ∀ y name s f, v.path.Has y name s f ↔ w.path.Has y name s f := by
  unfold takeTarget at h
  rw [run_clean_bind] at h
  obtain ⟨m, v', hm, h⟩ := bind_ok h
  cases h
  have hgrows := (Expr.later_evaluate hm).path
  rw [Expr.evaluate.eq_def] at hm
  dsimp only at hm
  rw [run_clean_bind] at hm
  obtain ⟨c, u, hc, hm⟩ := bind_ok hm
  obtain ⟨i, u', hi, hm⟩ := bind_ok hm
  rw [Expr.evaluate.eq_def] at hc
  obtain ⟨_, _, hflag, hm⟩ := bind_ok hm
  cases hm
  refine ⟨c, u, i, u', hc, hi, ?_, rfl, fun name s f => ?_, fun y name s f => hgrows.has⟩
  · rw [← Expr.path_of_flagContainer hflag]
  rw [Expr.has_clean_combine, MultiLabel.has_combine, Expr.has_clean_combine]

end Eval

/-! ## What a variable keeps -/

/-- All flows of the variable on the first path are on the second. -/
def Path.KeepsOn (x : String) (p q : Path) : Prop := ∀ name s f, p.Has x name s f → q.Has x name s f

section Parts

variable {edition : Edition} {x : String} {value : Expr} {spot : Spot} {w v : World} {r : Taint × Taint}

/-- What an assignment to a part leaves on the variable `x`. With `x.attr = e` these are the flows of `e`, and all that
`x` had are kept if and only if they are among them. With `x[i] = e` these are the flows that reading `x` gives, those
of `i` and those of `e`. All are kept if `x` was assigned; if it was not, reading it gives a raw flow from `x` and
nothing else, so those are kept that are this flow or come in again from `i` or `e`. Other variables have what they
had. -/
theorem part_assignment_flows [SetOrder] :
    (∀ attr, (Eval.assign edition [.attribute (some x) attr] value spot).run w = (.ok r, v) →
      ∃ e u, (value.evaluate edition .value).run { w with path := w.path.markInitialized attr } = (.ok e, u) ∧
        (∀ y name s f, v.path.Has y name s f ↔
          if y = x ∨ y = attr then e.Has name s f else w.path.Has y name s f) ∧
        (w.path.KeepsOn x v.path ↔ ∀ name s f, w.path.Has x name s f → e.Has name s f)) ∧
    ∀ at_ index whole,
      (Eval.assign edition [.subscript (some x) (.subscript (.name x at_) index whole)] value spot).run w =
        (.ok r, v) →
      ∃ c i e u u' u₁ u₁', (Eval.readName edition x at_ .value).run w = (.ok c, u) ∧
        (index.evaluate edition .value).run u = (.ok i, u') ∧ u₁.path = u'.path.markInitialized x ∧
        (value.evaluate edition .value).run u₁ = (.ok e, u₁') ∧
        (∀ y name s f, v.path.Has y name s f ↔
          if y = x then c.Has name s f ∨ i.Has name s f ∨ e.Has name s f else w.path.Has y name s f) ∧
        (x ∈ w.path.initialized → w.path.KeepsOn x v.path) ∧
        (x ∉ w.path.initialized → w.path.KeepsOn x v.path → ∀ name s f, w.path.Has x name s f →
          (s = x ∧ f = { position := edition.place at_ w.path.scope }) ∨ i.Has name s f ∨ e.Has name s f) := by
  constructor
  · intro attr h
    obtain ⟨taken, u, e, u', htake, he, hflows⟩ := Eval.assign_ok h
    cases htake
    have hall : ∀ y name s f, v.path.Has y name s f ↔
        if y = x ∨ y = attr then e.Has name s f else w.path.Has y name s f := by
      intro y name s f
      have hclean := Path.not_has_clean (w.path.markInitialized attr) name s f
      rw [hflows y name s f, or_iff_right hclean]
      simp only [Option.toList_some, List.singleton_append, List.mem_cons, List.not_mem_nil, or_false]
      rfl
    refine ⟨e, u', he, hall, forall_congr' fun name => forall_congr' fun s => forall_congr' fun f => ?_⟩
    rw [hall x name s f, if_pos (.inl rfl)]
  · intro at_ index whole h
    obtain ⟨taken, u₁, e, u₁', htake, he, hflows⟩ := Eval.assign_ok h
    obtain ⟨c, u, i, u', hc, hi, hpath, hnames, htaken, hsame⟩ := Eval.takeTarget_item_ok htake
    obtain ⟨hstored, hraw⟩ := Eval.stored_readName hc
    have hall : ∀ y name s f, v.path.Has y name s f ↔
        if y = x then c.Has name s f ∨ i.Has name s f ∨ e.Has name s f else w.path.Has y name s f := by
      intro y name s f
      rw [hflows y name s f, hnames, htaken, hsame, or_assoc]
      simp only [List.mem_singleton]
    refine ⟨c, i, e, u, u', u₁, u₁', hc, hi, hpath, he, hall, fun hx name s f hf => ?_, fun hx hkeep name s f hf => ?_⟩
    · rw [hall, if_pos rfl]
      exact .inl (hstored hx name s f hf)
    · have hv := hkeep name s f hf
      rw [hall, if_pos rfl] at hv
      exact hv.imp_left (hraw hx name s f)

end Parts

/-- After `c = get()` the assignment `c[0] = 0` keeps the flow of `get` on `c`, and `c.e = 0` takes it away. -/
theorem parts_of_assigned_variable :
    let a : Pattern :=
      { name := "A", sources := ["get"], sinks := ["sink"], modes := [], implicit := false }
    let get : Expr := .call "" "get" [] { line := 1, column := 4 }
    let w : World := ((Eval.assign .scoped [.name "c"] get { line := 1 }).run ⟨Path.start [a], {}⟩).2
    let item : Target := .subscript (some "c") (.subscript (.name "c" { line := 2 }) .inert { line := 2 })
    let field : Target := .attribute (some "c") "e"
    (∃ r v, (Eval.assign .scoped [item] .inert { line := 2 }).run w = (.ok r, v) ∧
      v.path.Has "c" "A" "get" { position := { line := 1, column := 4 } }) ∧
    ∃ r v, (Eval.assign .scoped [field] .inert { line := 2 }).run w = (.ok r, v) ∧
      ∀ s f, ¬ v.path.Has "c" "A" s f := by
  intro a get w item field
  have hget : ∃ m ∈ w.path.labels.get? "c", m.Has "A" "get" { position := { line := 1, column := 4 } } := by
    decide +kernel
  obtain ⟨r, v, hrun⟩ := Eval.exists_ok
    (show ((Eval.assign .scoped [item] .inert { line := 2 }).run w).1.isOk = true by decide +kernel)
  obtain ⟨r', v', hrun'⟩ := Eval.exists_ok
    (show ((Eval.assign .scoped [field] .inert { line := 2 }).run w).1.isOk = true by decide +kernel)
  obtain ⟨c, i, e, u, u', u₁, u₁', -, -, -, -, -, hkeep, -⟩ := part_assignment_flows.2 _ _ _ hrun
  obtain ⟨e', u, he, hflows, -⟩ := part_assignment_flows.1 _ hrun'
  refine ⟨⟨r, v, hrun, hkeep (by decide +kernel) _ _ _ hget⟩, r', v', hrun', fun s f hf => ?_⟩
  clear_value w
  rw [Expr.evaluate.eq_def] at he
  cases he
  rw [hflows, if_pos (.inl rfl)] at hf
  exact Path.not_has_clean _ _ _ _ hf

/-- The flow of `get` on `c` is lost in `c = get(); c.e = 0` and in `c.e = get(); c[0] = 0`. -/
theorem part_assignment_cleans_variable :
    let a : Pattern :=
      { name := "A", sources := ["get"], sinks := ["sink"], modes := [], implicit := false }
    let get : Expr := .call "" "get" [] { line := 1 }
    let field : Target := .attribute (some "c") "e"
    let item : Target := .subscript (some "c") (.subscript (.name "c" { line := 2 }) .inert { line := 2 })
    let after (edition : Edition) (t : Target) (value : Expr) (line : Int) (p : Path) : Path :=
      ((Eval.assign edition [t] value { line }).run ⟨p, {}⟩).2.path
    let has (p : Path) : Prop := ∃ m ∈ p.labels.get? "c", m.Has "A" "get" { position := { line := 1 } }
    let loses (edition : Edition) (t t' : Target) : Prop :=
      has (after edition t get 1 (Path.start [a])) ∧
        ¬ has (after edition t' .inert 2 (after edition t get 1 (Path.start [a])))
    (loses .plain (.name "c") field ∧ loses .plain field item) ∧
      loses .scoped (.name "c") field ∧ loses .scoped field item := by
  decide +kernel

end TaintFlow
