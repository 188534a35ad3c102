import TaintFlow.Proofs.Lockstep

/-
What a loop search has seen when it stops. The search unrolls one, two, three, … iterations from the
entry, each time anew, and stops at a round whose states are all known. If states that count as the same
are kin, and kin states go on in the same way, the states seen so far are then closed under iteration: each
of them was reached in an earlier round, so that what an iteration makes of it came up a round later.
Hence no further round reaches anything else.
-/
namespace TaintFlow

namespace Analysis

/-! ## Rounds one after the other -/

theorem unroll_succ (step : Walk) : ∀ (n : Nat) (paths : List Path) (r : Report),
    unroll step (n + 1) paths r = match unroll step n paths r with
      | (.error f, r) => (.error f, r)
      | (.ok out, r) => iterate step out r
  | 0, paths, r => by
    show (match iterate step paths r with
      | (.error f, r) => (.error f, r)
      | (.ok out, r) => (.ok out, r)) = iterate step paths r
    generalize iterate step paths r = x
    obtain ⟨out, r'⟩ := x
    cases out <;> rfl
  | n + 1, paths, r => by
    rw [unroll, unroll]
    generalize iterate step paths r = x
    obtain ⟨out, r'⟩ := x
    cases out with
    | error f => rfl
    | ok out => exact unroll_succ step n out r'

/-- An iteration from several paths succeeds if it does from each of them. -/
theorem iterate_total {step : Walk} {P : Path → Prop} : ∀ {paths : List Path},
    (∀ p ∈ paths, ∀ r, ∃ out r', step p r = (.ok out, r') ∧ ∀ q ∈ out, P q) →
    ∀ r, ∃ out r', iterate step paths r = (.ok out, r') ∧ ∀ q ∈ out, P q
  | [], _, r => ⟨[], r, rfl, List.forall_mem_nil _⟩
  | p :: rest, h, r => by
    obtain ⟨first, r₁, hfirst, hp⟩ := h p (List.mem_cons_self ..) r
    obtain ⟨others, r₂, hothers, hrest⟩ :=
      iterate_total (fun p' hp' => h p' (List.mem_cons_of_mem _ hp')) r₁
    refine ⟨first ++ others, r₂, ?_, fun q hq => (List.mem_append.1 hq).elim (hp q) (hrest q)⟩
    rw [iterate, hfirst]
    dsimp only
    rw [hothers]

theorem rounds_eq_ok {depth : Int} {enter : Eval Unit} {body : Analysis} {start : Path} {n : Nat} {r r' : Report}
    {out : List Path} : rounds depth enter body start n r = (.ok out, r') ↔
      ∃ out', unroll (iteration enter body) n [start] r = (.ok out', r') ∧
        out = out'.map fun q => { q with scope := q.scope - depth } := by
  unfold rounds
  generalize unroll (iteration enter body) n [start] r = x
  obtain ⟨out', r₁⟩ := x
  cases out' with
  | error f => exact ⟨fun h => (nomatch h), fun ⟨_, h, _⟩ => (nomatch h)⟩
  | ok out' =>
    constructor
    · intro h
      cases h
      exact ⟨out', rfl, rfl⟩
    · rintro ⟨_, h, rfl⟩
      cases h
      rfl

/-! ## Adding what is new -/

theorem length_le_addNew {same : Path → Path → Bool} : ∀ (paths seen : List Path),
    seen.length ≤ (addNew same seen paths).length
  | [], _ => Nat.le_refl _
  | p :: paths, seen => by
    refine Nat.le_trans ?_ (length_le_addNew paths (if seen.any (same p) then seen else seen ++ [p]))
    split
    · exact Nat.le_refl _
    · rw [List.length_append]
      exact Nat.le_add_right _ _

theorem subset_addNew {same : Path → Path → Bool} : ∀ (paths seen : List Path), ∀ q ∈ seen, q ∈ addNew same seen paths
  | [], _, _, h => h
  | p :: paths, seen, q, h => by
    refine subset_addNew paths (if seen.any (same p) then seen else seen ++ [p]) q ?_
    split
    · exact h
    · exact List.mem_append.2 (.inl h)

/-- A path counts as seen afterwards, itself or a path that it is compared equal to. -/
theorem known_addNew {same : Path → Path → Bool} : ∀ (paths seen : List Path), ∀ p ∈ paths,
    ∃ q ∈ addNew same seen paths, q = p ∨ same p q = true
  | p :: paths, seen, p', hp => by
    have hrec := @known_addNew same paths (if seen.any (same p) then seen else seen ++ [p])
    rcases List.mem_cons.1 hp with rfl | hp
    · by_cases h : seen.any (same p') = true
      · obtain ⟨q, hq, hsame⟩ := List.any_eq_true.1 h
        exact ⟨q, subset_addNew (p' :: paths) seen q hq, .inr hsame⟩
      · refine ⟨p', subset_addNew paths _ p' ?_, .inl rfl⟩
        dsimp only
        rw [if_neg h]
        exact List.mem_append.2 (.inr (List.mem_singleton.2 rfl))
    · exact hrec p' hp

/-- If nothing is new, every path is compared equal to one that was seen. -/
theorem known_of_length_addNew {same : Path → Path → Bool} : ∀ {paths seen : List Path},
    (addNew same seen paths).length = seen.length → ∀ p ∈ paths, ∃ q ∈ seen, same p q = true
  | p :: paths, seen, h, p', hp => by
    have h : (addNew same (if seen.any (same p) then seen else seen ++ [p]) paths).length = seen.length := h
    by_cases hany : seen.any (same p) = true
    · rw [if_pos hany] at h
      rcases List.mem_cons.1 hp with rfl | hp
      · exact List.any_eq_true.1 hany
      · exact known_of_length_addNew h p' hp
    · rw [if_neg hany] at h
      have hle := @length_le_addNew same paths (seen ++ [p])
      rw [List.length_append, List.length_singleton] at hle
      omega

end Analysis

namespace Accord

variable {c : Accord}

/-! ## States that are covered -/

variable (c) in
/-- Some state of the list is kin to the path. -/
def Covered (seen : List Path) (q : Path) : Prop := ∃ s ∈ seen, c.Kin q s

theorem Covered.of_kin {seen : List Path} {p q : Path} (h : c.Kin p q) (hq : c.Covered seen q) : c.Covered seen p := by
  obtain ⟨s, hs, hk⟩ := hq
  exact ⟨s, hs, h.trans hk⟩

theorem Covered.mono {seen seen' : List Path} (h : ∀ s ∈ seen, s ∈ seen') {q : Path} (hq : c.Covered seen q) :
    c.Covered seen' q := by
  obtain ⟨s, hs, hk⟩ := hq
  exact ⟨s, h s hs, hk⟩

/-- Where reports are not compared, a run from a kin path succeeds whatever is reported so far. -/
theorem SameWalk.ok_right {x y : Except Fault (List Path) × Report} (h : c.SameWalk x y) {out : List Path} {r : Report}
    (hx : x = (.ok out, r)) : ∃ out' r', y = (.ok out', r') ∧ List.Forall₂ c.Kin out out' := by
  cases h with
  | error _ => cases hx
  | ok hk _ =>
    cases hx
    exact ⟨_, _, rfl, hk⟩

variable (c) in
/-- Whatever is reported so far, the run succeeds, and the states cover what it comes to. -/
def EndsIn (seen : List Path) (run : Report → Except Fault (List Path) × Report) : Prop :=
  ∀ r, ∃ out r', run r = (.ok out, r') ∧ ∀ q ∈ out, c.Covered seen q

theorem EndsIn.mono {seen seen' : List Path} (h : ∀ s ∈ seen, s ∈ seen')
    {run : Report → Except Fault (List Path) × Report} (hrun : c.EndsIn seen run) : c.EndsIn seen' run := by
  intro r
  obtain ⟨out, r', ho, hcov⟩ := hrun r
  exact ⟨out, r', ho, fun q hq => (hcov q hq).mono h⟩

/-- A run comes to covered states if another one has come to covered states and it goes alike. -/
theorem endsIn_of_sameWalk {seen : List Path} {run run' : Report → Except Fault (List Path) × Report} {r₁ r₂ : Report}
    {o : List Path} (h : run r₁ = (.ok o, r₂)) (ho : ∀ q ∈ o, c.Covered seen q)
    (hwalk : ∀ r, c.SameWalk (run r₁) (run' r)) : c.EndsIn seen run' := by
  intro r
  obtain ⟨out, r', hr, hk⟩ := (hwalk r).ok_right h
  refine ⟨out, r', hr, fun p hp => ?_⟩
  obtain ⟨q, hq, hkin⟩ := forall₂_exists_right hk.flip p hp
  exact (ho q hq).of_kin hkin.symm

theorem endsIn_of_kin (hloose : ¬ c.strict) {step : Analysis.Walk} (hs : c.WalkLockstep step) {seen : List Path}
    {p q : Path} (hpq : c.Kin p q) {r₁ r₂ : Report} {o : List Path} (hq : step q r₁ = (.ok o, r₂))
    (ho : ∀ q' ∈ o, c.Covered seen q') : c.EndsIn seen (step p) :=
  endsIn_of_sameWalk hq ho fun r => hs q p r₁ r hpq.symm fun h => absurd h hloose

/-! ## Closed sets of states -/

section Closed

variable (hplain : c.edition = .plain) (hloose : ¬ c.strict) {depth : Int} {enter : Eval Unit} {body : Analysis}
  (hs : c.WalkLockstep (Analysis.iteration enter body)) {start : Path} (hstart : c.Tamed start)

include hplain in
/-- The plain edition does not look at nesting levels. -/
theorem kin_scope {p : Path} (h : c.Tamed p) (scope : Int) : c.Kin p { p with scope } :=
  { Kin.refl h with
    right := { h with }
    scope := fun he => absurd (hplain.symm.trans he) (by decide) }

include hs hstart in
theorem tamed_unroll {n : Nat} {r r' : Report} {out : List Path}
    (h : Analysis.unroll (Analysis.iteration enter body) n [start] r = (.ok out, r')) : ∀ q ∈ out, c.Tamed q := by
  have hwalk := lockstep_unroll hs n (.cons (.refl hstart) .nil) (.refl r)
  rw [h] at hwalk
  exact hwalk.tamed

include hs hstart in
theorem tamed_rounds {n : Nat} {r r' : Report} {out : List Path}
    (h : Analysis.rounds depth enter body start n r = (.ok out, r')) : ∀ q ∈ out, c.Tamed q := by
  have hwalk := lockstep_rounds hs depth n (.refl hstart) (.refl r)
  rw [h] at hwalk
  exact hwalk.tamed

include hplain hloose hs hstart in
/-- If the next round is covered, so is what an iteration makes of a state of this round. -/
theorem covered_step_of_round {seen : List Path} {n : Nat} {r₁ r₁' r₂ r₂' : Report} {out out' : List Path}
    (h : Analysis.rounds depth enter body start n r₁ = (.ok out, r₁'))
    (h' : Analysis.rounds depth enter body start (n + 1) r₂ = (.ok out', r₂')) (hcov : ∀ q ∈ out', c.Covered seen q)
    {s : Path} (hmem : s ∈ out) : c.EndsIn seen (Analysis.iteration enter body s) := by
  obtain ⟨u, hu, rfl⟩ := Analysis.rounds_eq_ok.1 h
  obtain ⟨u', hu', rfl⟩ := Analysis.rounds_eq_ok.1 h'
  obtain ⟨s₀, hs₀, rfl⟩ := List.mem_map.1 hmem
  -- the rounds started with different reports, so the states of this round stand there up to kinship
  have hwalk := lockstep_unroll hs n (.cons (.refl hstart) .nil) (fun h => absurd h hloose : c.SameReport r₁ r₂)
  obtain ⟨v, r₃, hv, hk⟩ := hwalk.ok_right hu
  obtain ⟨t, ht, hst⟩ := forall₂_exists_right hk s₀ hs₀
  have htamed := tamed_unroll hs hstart hu'
  rw [Analysis.unroll_succ, hv] at hu'
  obtain ⟨r₄, r₅, o, ho, hin⟩ := (Analysis.iterate_spec hu').2 t ht
  have hkin : c.Kin { s₀ with scope := s₀.scope - depth } t := (kin_scope hplain hst.left _).symm.trans hst
  refine endsIn_of_kin hloose hs hkin ho fun q hq => ?_
  exact (hcov _ (List.mem_map_of_mem (hin q hq))).of_kin (kin_scope hplain (htamed q (hin q hq)) _)

include hplain hloose hs hstart in
/-- States that are closed under iteration cover all rounds if they cover the first. -/
theorem covered_rounds {seen : List Path}
    (hclosed : ∀ s ∈ seen, c.EndsIn seen (Analysis.iteration enter body s))
    (hfirst : c.EndsIn seen (Analysis.rounds depth enter body start 1)) :
    ∀ n, c.EndsIn seen (Analysis.rounds depth enter body start (n + 1))
  | 0 => hfirst
  | n + 1 => by
    intro r
    obtain ⟨out, r', h, hcov⟩ := covered_rounds hclosed hfirst n r
    obtain ⟨u, hu, rfl⟩ := Analysis.rounds_eq_ok.1 h
    have hnext : ∀ q ∈ u, c.EndsIn seen (Analysis.iteration enter body q) := by
      intro q hq
      obtain ⟨s, hs', hkin⟩ := hcov _ (List.mem_map_of_mem hq)
      obtain ⟨o, r₁, ho, hocov⟩ := hclosed s hs' r
      have hq' := kin_scope hplain (tamed_unroll hs hstart hu q hq) (q.scope - depth)
      exact endsIn_of_kin hloose hs (hq'.trans hkin) ho hocov
    obtain ⟨o, r'', ho, hocov⟩ := Analysis.iterate_total hnext r'
    have hu' : Analysis.unroll (Analysis.iteration enter body) (n + 2) [start] r = (.ok o, r'') := by
      rw [Analysis.unroll_succ, hu]
      exact ho
    refine ⟨_, r'', Analysis.rounds_eq_ok.2 ⟨o, hu', rfl⟩, fun q hq => ?_⟩
    obtain ⟨q₀, hq₀, rfl⟩ := List.mem_map.1 hq
    exact (hocov q₀ hq₀).of_kin (kin_scope hplain (tamed_unroll hs hstart hu' q₀ hq₀) _).symm

/-! ## What the search has seen -/

variable (c depth enter body start) in
/-- The states seen in the first rounds cover these rounds, and each of them came up in one of them. -/
structure Explored (n : Nat) (seen : List Path) : Prop where
  covers : ∀ i < n, c.EndsIn seen (Analysis.rounds depth enter body start (i + 1))
  origin : ∀ s ∈ seen, ∃ i < n, ∃ r out r', Analysis.rounds depth enter body start (i + 1) r = (.ok out, r') ∧ s ∈ out

theorem explored_nil : c.Explored depth enter body start 0 [] where
  covers := fun i hi => absurd hi (Nat.not_lt_zero i)
  origin := List.forall_mem_nil _

section Explored

variable {n : Nat} {seen : List Path} (h : c.Explored depth enter body start n seen)

include hs hstart h in
theorem Explored.tamed : ∀ s ∈ seen, c.Tamed s := by
  intro s hmem
  obtain ⟨i, -, r, out, r', hi, ho⟩ := h.origin s hmem
  exact tamed_rounds hs hstart hi s ho

include hplain hloose hs hstart h in
/-- If the states seen cover the next round as well, they are closed under iteration, so they cover all rounds. -/
theorem Explored.covers_all (hlast : c.EndsIn seen (Analysis.rounds depth enter body start (n + 1))) (m : Nat) :
    c.EndsIn seen (Analysis.rounds depth enter body start (m + 1)) := by
  have hall : ∀ i < n + 1, c.EndsIn seen (Analysis.rounds depth enter body start (i + 1)) := by
    intro i hi
    rcases Nat.lt_succ_iff_lt_or_eq.1 hi with hi | rfl
    · exact h.covers i hi
    · exact hlast
  refine covered_rounds hplain hloose hs hstart (fun s hmem => ?_) (hall 0 (by omega)) m
  obtain ⟨i, hi, r, out, r', ho, hsout⟩ := h.origin s hmem
  obtain ⟨out', r'', ho', hcov⟩ := hall (i + 1) (by omega) r
  exact covered_step_of_round hplain hloose hs hstart ho ho' hcov hsout

variable {same : Path → Path → Bool} (hsame : ∀ p q, c.Tamed p → c.Tamed q → same p q = true → c.Kin p q)
  {r r₁ : Report} {paths : List Path} (hround : Analysis.rounds depth enter body start (n + 1) r = (.ok paths, r₁))

include hloose hs hstart hround in
/-- What covers the states of a round covers the round, whatever it starts with. -/
theorem endsIn_of_round {seen : List Path} (hcov : ∀ q ∈ paths, c.Covered seen q) :
    c.EndsIn seen (Analysis.rounds depth enter body start (n + 1)) :=
  endsIn_of_sameWalk hround hcov fun _ => lockstep_rounds hs depth (n + 1) (.refl hstart) fun h => absurd h hloose

include hloose hs hstart h hsame hround in
/-- The states seen before the next round and what is new in it. -/
theorem Explored.next : c.Explored depth enter body start (n + 1) (Analysis.addNew same seen paths) where
  covers := by
    intro i hi
    rcases Nat.lt_succ_iff_lt_or_eq.1 hi with hi | rfl
    · exact (h.covers i hi).mono (Analysis.subset_addNew paths seen)
    · refine endsIn_of_round hloose hs hstart hround fun q hq => ?_
      have hpaths := tamed_rounds hs hstart hround
      obtain ⟨s, hs', he⟩ := Analysis.known_addNew paths seen q hq
      refine ⟨s, hs', ?_⟩
      rcases he with rfl | hsm
      · exact .refl (hpaths s hq)
      · exact hsame q s (hpaths q hq) ((Analysis.mem_addNew hs').elim (h.tamed hs hstart s) (hpaths s)) hsm
  origin := by
    intro s hmem
    rcases Analysis.mem_addNew hmem with hmem | hmem
    · obtain ⟨i, hi, hrest⟩ := h.origin s hmem
      exact ⟨i, by omega, hrest⟩
    · exact ⟨n, by omega, r, paths, r₁, hround, hmem⟩

end Explored

include hplain hloose hs hstart in
/-- A search that stops has found a state for every state of every round, if states that it does not tell
apart are kin. -/
theorem covered_of_settle {same : Path → Path → Bool}
    (hsame : ∀ p q, c.Tamed p → c.Tamed q → same p q = true → c.Kin p q) :
    ∀ {limit n : Nat} {seen found : List Path} {r r₁ : Report} {found' : List Path}, (∀ s ∈ seen, s ∈ found) →
      c.Explored depth enter body start n seen →
      Analysis.settle same (Analysis.rounds depth enter body start) limit n seen found r = (.ok found', r₁) →
      ∀ m, c.EndsIn found' (Analysis.rounds depth enter body start (m + 1))
  | 0, _, _, _, _, _, _, _, _, h => by cases h
  | limit + 1, n, seen, found, r, r₁, found', hsub, hseen, h => by
    obtain ⟨paths, r₂, hround, ⟨hstop, rfl, -⟩ | h⟩ := Analysis.settle_succ_ok h
    · -- nothing is new, so the states seen before cover this round too
      have hlast := endsIn_of_round hloose hs hstart hround fun q hq => by
        obtain ⟨s, hmem, hsm⟩ := Analysis.known_of_length_addNew hstop q hq
        exact ⟨s, hmem, hsame q s (tamed_rounds hs hstart hround q hq) (hseen.tamed hs hstart s hmem) hsm⟩
      intro m
      refine (hseen.covers_all hplain hloose hs hstart hlast m).mono fun s hmem => ?_
      exact List.mem_append.2 (.inl (hsub s hmem))
    · refine covered_of_settle hsame (fun s hmem => ?_) (hseen.next hloose hs hstart hsame hround) h
      exact List.mem_append.2 ((Analysis.mem_addNew hmem).imp_left (hsub s))

end Closed

end Accord

end TaintFlow
