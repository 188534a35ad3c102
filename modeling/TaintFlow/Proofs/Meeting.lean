import TaintFlow.Proofs.Lineage
import TaintFlow.Proofs.Tilt

/-
Runs of both sides of a tilt that end without a fault. They meet if every path of one side comes to stand
beside a path of the other, and the reports tell of the same flows up to what is spared. Neither the number
nor the order of the paths has to agree: what counts is that a step is taken from each of them, in whatever
place of the run. A `Tour` is this view of a run that takes one step again and again.
-/
namespace TaintFlow

/-- The second path is the first one outside of some regions, at any nesting level. -/
inductive Path.Remains (p : Path) : Path → Prop where
  | same : Remains p p
  | pop {q : Path} : Remains p q → Remains p q.pop
  | rescope {q : Path} (scope : Int) : Remains p q → Remains p { q with scope }

theorem Path.remains_map {f : Path → Path} (hf : ∀ p : Path, p.Remains (f p)) (paths : List Path) :
    List.Forall₂ Path.Remains paths (paths.map f) :=
  List.forall₂_map_right_iff.2 (List.forall₂_same.2 fun p _ => hf p)

namespace Analysis

/-! ## Tours -/

/-- Some run of the step from the path adds the explicit flow to the report. -/
def News (step : Walk) (p : Path) (s : Subject) (marks : List Mark) : Prop :=
  ∃ r out r₁, step p r = (.ok out, r₁) ∧ r₁.Recorded s .explicit marks ∧ ¬ r.Recorded s .explicit marks

/-- What a run does that takes a step from many paths, up to a likeness of paths: it takes the step from the
paths that it visits, and all that it finds and records comes of the step from its sources. -/
structure Tour (Like : Path → Path → Prop) (step : Walk) (Visited Source : Path → Prop) (r : Report)
    (found : List Path) (r₁ : Report) : Prop where
  keeps : r.Kept r₁
  taken : ∀ p, Visited p → ∃ q ρ out ρ₁, Like p q ∧ step q ρ = (.ok out, ρ₁) ∧
    (∀ w ∈ out, ∃ f ∈ found, Like w f) ∧ ρ₁.Kept r₁
  given : ∀ f ∈ found, ∃ p, Source p ∧ ∃ out, Leads step p out ∧ ∃ w ∈ out, Like w f
  news : ∀ s marks, r₁.Recorded s .explicit marks →
    r.Recorded s .explicit marks ∨ ∃ p, Source p ∧ News step p s marks

/-- Whatever a run of the first step comes to, a run of the second one from a near path comes near to it. -/
def Follows (Near : Path → Path → Prop) (Exempt : Subject → Prop) (step step' : Walk) : Prop :=
  ∀ ⦃p q r r' out out' r₁ r₁'⦄, Near p q → step p r = (.ok out, r₁) → step' q r' = (.ok out', r₁') →
    (∀ w ∈ out, ∃ w' ∈ out', Near w w') ∧ ∀ s marks, r₁.Recorded s .explicit marks →
      r.Recorded s .explicit marks ∨ r₁'.Recorded s .explicit marks ∨ Exempt s

section Tour

variable {Near Like Like' : Path → Path → Prop} {Exempt : Subject → Prop} {step step' : Walk}
  {Visited Source Visited' Source' : Path → Prop} {r r₁ r' r₁' : Report} {found found' : List Path}
  (hw : Follows Near Exempt step step') (tour' : Tour Like' step' Visited' Source' r' found' r₁')
  (hlike' : ∀ {p q q'}, Near p q → Like' q q' → Near p q')

include hw tour' hlike'

/-- What comes out of a path near to a visited one is near to what the tour has found. -/
theorem Tour.covers {p v : Path} (hv : Visited' v) (hnear : Near p v) {out : List Path} (h : Leads step p out) :
    ∀ w ∈ out, ∃ f ∈ found', Near w f := by
  obtain ⟨ρ, ρ₁, h⟩ := h
  obtain ⟨q, ρ', out', ρ₁', hq, h', hfound, -⟩ := tour'.taken v hv
  intro w hmem
  obtain ⟨w', hmem', hww'⟩ := (hw (hlike' hnear hq) h h').1 w hmem
  obtain ⟨f, hf, hwf⟩ := hfound w' hmem'
  exact ⟨f, hf, hlike' hww' hwf⟩

/-- What is new from a path near to a visited one is in the report of the tour. -/
theorem Tour.tells {p v : Path} (hv : Visited' v) (hnear : Near p v) {s : Subject} {marks : List Mark}
    (h : News step p s marks) : r₁'.Recorded s .explicit marks ∨ Exempt s := by
  obtain ⟨ρ, out, ρ₁, h, hafter, hbefore⟩ := h
  obtain ⟨q, ρ', out', ρ₁', hq, h', -, hkept⟩ := tour'.taken v hv
  have hrecorded := ((hw (hlike' hnear hq) h h').2 s marks hafter).resolve_left hbefore
  exact hrecorded.imp_left (hkept s .explicit marks)

/-- A tour follows another one if it has visited a path near to each of its sources. -/
theorem Tour.follows (tour : Tour Like step Visited Source r found r₁)
    (hlike : ∀ {p p' q}, Near p q → Like p p' → Near p' q)
    (hsource : ∀ p, Source p → ∃ v, Visited' v ∧ Near p v) :
    (∀ f ∈ found, ∃ f' ∈ found', Near f f') ∧ ∀ s marks, r₁.Recorded s .explicit marks →
      r.Recorded s .explicit marks ∨ r₁'.Recorded s .explicit marks ∨ Exempt s := by
  constructor
  · intro f hf
    obtain ⟨p, hp, out, hout, w, hmem, hwf⟩ := tour.given f hf
    obtain ⟨v, hv, hnear⟩ := hsource p hp
    obtain ⟨f', hf', hwf'⟩ := tour'.covers hw hlike' hv hnear hout w hmem
    exact ⟨f', hf', hlike hwf' hwf⟩
  · intro s marks hrecorded
    refine (tour.news s marks hrecorded).imp_right fun ⟨p, hp, hnews⟩ => ?_
    obtain ⟨v, hv, hnear⟩ := hsource p hp
    exact tour'.tells hw hlike' hv hnear hnews

end Tour

/-- A run of the step from each of several paths is a tour of these paths. -/
theorem tour_iterate {step : Walk} : ∀ {paths out : List Path} {r r₁ : Report},
    (∀ p ∈ paths, ∀ ρ o ρ₁, step p ρ = (.ok o, ρ₁) → ρ.Kept ρ₁) → iterate step paths r = (.ok out, r₁) →
      Tour Eq step (· ∈ paths) (· ∈ paths) r out r₁
  | [], _, r, _, _, h => by
    cases h
    exact ⟨.refl r, fun _ h => absurd h List.not_mem_nil, List.forall_mem_nil _, fun _ _ h => .inl h⟩
  | p :: rest, out, r, r₁, hkeeps, h => by
    rw [iterate_cons] at h
    obtain ⟨first, r₂, hfirst, h⟩ := chain_ok h
    obtain ⟨others, _, hothers, h⟩ := chain_ok h
    cases h
    rw [List.forall_mem_cons] at hkeeps
    have hkept := hkeeps.1 r first r₂ hfirst
    have tour := tour_iterate hkeeps.2 hothers
    refine ⟨hkept.trans tour.keeps, ?_, ?_, ?_⟩
    · refine List.forall_mem_cons.2 ⟨⟨p, r, first, r₂, rfl, hfirst, ?_, tour.keeps⟩, fun q hq => ?_⟩
      · exact fun w hmem => ⟨w, List.mem_append_left _ hmem, rfl⟩
      · obtain ⟨_, ρ, o, ρ₁, rfl, ho, hfound, hkept⟩ := tour.taken q hq
        refine ⟨q, ρ, o, ρ₁, rfl, ho, fun w hmem => ?_, hkept⟩
        obtain ⟨_, hf, rfl⟩ := hfound w hmem
        exact ⟨w, List.mem_append_right _ hf, rfl⟩
    · intro f hf
      rcases List.mem_append.1 hf with hf | hf
      · exact ⟨p, List.mem_cons_self .., first, ⟨r, r₂, hfirst⟩, f, hf, rfl⟩
      · obtain ⟨q, hq, hout⟩ := tour.given f hf
        exact ⟨q, List.mem_cons_of_mem _ hq, hout⟩
    · intro s marks hrecorded
      rcases tour.news s marks hrecorded with hrecorded | ⟨q, hq, hnews⟩
      · by_cases hbefore : r.Recorded s .explicit marks
        · exact .inl hbefore
        · exact .inr ⟨p, List.mem_cons_self .., r, first, r₂, hfirst, hrecorded, hbefore⟩
      · exact .inr ⟨q, List.mem_cons_of_mem _ hq, hnews⟩

/-! ## Simple statements and branches as tours -/

/-- A step as a walk to one path. -/
def stepWalk (step : Eval Unit) : Walk := fun p r => chain (step.outcome p r) fun q r => (.ok [q], r)

theorem outcome_onEach (step : Eval Unit) (paths : List Path) (r : Report) :
    outcome (onEach step) paths r = iterate (stepWalk step) paths r := by
  induction paths generalizing r with
  | nil => rfl
  | cons p rest ih =>
    rw [outcome_onEach_cons, iterate_cons, stepWalk]
    generalize step.outcome p r = x
    obtain ⟨x, r₁⟩ := x
    cases x with
    | error f => rfl
    | ok q =>
      dsimp only [chain]
      rw [ih]
      rfl

/-- A branch from one path, up to where its region is left. -/
def branchFrom (enter : Eval Unit) (body orelse : Analysis) : Walk := fun p r =>
  chain (enter.outcome { p with scope := p.scope + 1 } r) fun q r =>
    chain (body.outcome [q.fork] r) fun yes r =>
      chain (orelse.outcome [q.fork] r) fun no r => (.ok (yes ++ no), r)

theorem remains_leave (p : Path) : p.Remains (leave p) := .rescope _ (.pop .same)

/-- The paths that come out of a branch are those of the single branches, outside of their regions. -/
theorem fork_ok {enter : Eval Unit} {body orelse : Analysis} :
    ∀ {paths done new new' out : List Path} {r r₁ : Report}, List.Forall₂ Path.Remains new' new →
      outcome (fork enter body orelse done new) paths r = (.ok out, r₁) →
        ∃ all, iterate (branchFrom enter body orelse) paths r = (.ok all, r₁) ∧
          List.Forall₂ Path.Remains (new' ++ all) out
  | [], _, new, new', _, r, _, hnew, h => by
    cases h
    exact ⟨[], rfl, (List.append_nil new').symm ▸ hnew⟩
  | p :: rest, done, new, new', out, r, r₁, hnew, h => by
    rw [outcome_fork_cons] at h
    obtain ⟨q, r₂, hq, h⟩ := chain_ok h
    obtain ⟨yes, r₃, hyes, h⟩ := chain_ok h
    obtain ⟨no, r₄, hno, h⟩ := chain_ok h
    have hleft : List.Forall₂ Path.Remains (new' ++ (yes ++ no)) ((new ++ yes ++ no).map leave) := by
      rw [List.append_assoc, List.map_append]
      have hnew : List.Forall₂ Path.Remains new' (new.map leave) :=
        List.forall₂_map_right_iff.2 (hnew.imp fun _ _ hr => .rescope _ (.pop hr))
      exact List.rel_append hnew (Path.remains_map remains_leave _)
    obtain ⟨all, hall, hout⟩ := fork_ok hleft h
    refine ⟨yes ++ no ++ all, ?_, by rwa [List.append_assoc] at hout⟩
    rw [iterate_cons, branchFrom, hq, chain, hyes, chain, hno, chain, chain, hall, chain]

end Analysis

namespace Tilt

variable {t : Tilt} {p q : Path}

theorem Beside.remains {p' q' : Path} (h : t.Beside p q) (hp : p.Remains p') (hq : q.Remains q') :
    t.Beside p' q' := by
  have hleft : t.Beside p' q := by
    induction hp with
    | same => exact h
    | pop _ ih => exact { ih with left := ih.left.pop }
    | rescope scope _ ih => exact { ih with left := ih.left.rescope scope }
  induction hq with
  | same => exact hleft
  | pop _ ih => exact { ih with right := ih.right.pop }
  | rescope scope _ ih => exact { ih with right := ih.right.rescope scope }

/-! ## Paths that face each other -/

variable (t) in
/-- Every path of one side is beside a path of the other. -/
structure Facing (paths paths' : List Path) : Prop where
  left : ∀ p ∈ paths, ∃ q ∈ paths', t.Beside p q
  right : ∀ q ∈ paths', ∃ p ∈ paths, t.Beside p q

theorem facing_singleton (h : t.Beside p q) : t.Facing [p] [q] :=
  ⟨List.forall_mem_singleton.2 ⟨q, List.mem_singleton_self q, h⟩,
    List.forall_mem_singleton.2 ⟨p, List.mem_singleton_self p, h⟩⟩

theorem Facing.append {l l' m m' : List Path} (h : t.Facing l l') (h' : t.Facing m m') :
    t.Facing (l ++ m) (l' ++ m') where
  left p hp := by
    rcases List.mem_append.1 hp with hp | hp
    · obtain ⟨q, hq, hpq⟩ := h.left p hp
      exact ⟨q, List.mem_append_left _ hq, hpq⟩
    · obtain ⟨q, hq, hpq⟩ := h'.left p hp
      exact ⟨q, List.mem_append_right _ hq, hpq⟩
  right q hq := by
    rcases List.mem_append.1 hq with hq | hq
    · obtain ⟨p, hp, hpq⟩ := h.right q hq
      exact ⟨p, List.mem_append_left _ hp, hpq⟩
    · obtain ⟨p, hp, hpq⟩ := h'.right q hq
      exact ⟨p, List.mem_append_right _ hp, hpq⟩

theorem Facing.remains {l l' m m' : List Path} (h : t.Facing l l') (hl : List.Forall₂ Path.Remains l m)
    (hl' : List.Forall₂ Path.Remains l' m') : t.Facing m m' where
  left p hp := by
    obtain ⟨p₀, hp₀, hremains⟩ := Accord.forall₂_exists_right hl.flip p hp
    obtain ⟨q₀, hq₀, hpq⟩ := h.left p₀ hp₀
    obtain ⟨q, hq, hremains'⟩ := Accord.forall₂_exists_right hl' q₀ hq₀
    exact ⟨q, hq, hpq.remains hremains hremains'⟩
  right q hq := by
    obtain ⟨q₀, hq₀, hremains'⟩ := Accord.forall₂_exists_right hl'.flip q hq
    obtain ⟨p₀, hp₀, hpq⟩ := h.right q₀ hq₀
    obtain ⟨p, hp, hremains⟩ := Accord.forall₂_exists_right hl p₀ hp₀
    exact ⟨p, hp, hpq.remains hremains hremains'⟩

/-! ## Analyses that meet -/

variable (t) in
/-- Runs that end without a fault come from facing inputs to facing paths, and their reports tell of the same. -/
def Meets {α : Type} (Rel : α → α → Prop) (f f' : α → Report → Except Fault (List Path) × Report) : Prop :=
  ∀ ⦃a b r r' out out' r₁ r₁'⦄, Rel a b → f a r = (.ok out, r₁) → f' b r' = (.ok out', r₁') →
    t.Facing out out' ∧ t.Told (r, r') (r₁, r₁')

section Meets

open Analysis

variable {walk walk' : Walk}

theorem Meets.forward (h : t.Meets t.Beside walk walk') :
    Follows t.Beside (fun s => t.hidden s.pattern) walk walk' := by
  intro p q r r' out out' r₁ r₁' hpq hp hq
  obtain ⟨hfacing, htold⟩ := h hpq hp hq
  exact ⟨hfacing.left, htold.told⟩

theorem Meets.backward (h : t.Meets t.Beside walk walk') :
    Follows (fun q p => t.Beside p q) t.Exempt walk' walk := by
  intro q p r' r out' out r₁' r₁ hpq hq hp
  obtain ⟨hfacing, htold⟩ := h hpq hp hq
  exact ⟨hfacing.right, htold.only⟩

/-- Tours of both sides meet if each has visited a path beside each source of the other. -/
theorem Meets.tours (h : t.Meets t.Beside walk walk') {Like Like' : Path → Path → Prop}
    {Visited Source Visited' Source' : Path → Prop} {r r₁ r' r₁' : Report} {found found' : List Path}
    (tour : Tour Like walk Visited Source r found r₁) (tour' : Tour Like' walk' Visited' Source' r' found' r₁')
    (hlike : ∀ {p p' q}, t.Beside p q → Like p p' → t.Beside p' q)
    (hlike' : ∀ {p q q'}, t.Beside p q → Like' q q' → t.Beside p q')
    (hsource : ∀ p, Source p → ∃ v, Visited' v ∧ t.Beside p v)
    (hsource' : ∀ q, Source' q → ∃ v, Visited v ∧ t.Beside v q) :
    t.Facing found found' ∧ t.Told (r, r') (r₁, r₁') := by
  have hforward := tour'.follows h.forward hlike' tour hlike hsource
  have hbackward := tour.follows h.backward hlike tour' hlike' hsource'
  exact ⟨⟨hforward.1, hbackward.1⟩, tour.keeps, tour'.keeps, hforward.2, hbackward.2⟩

/-- A walk from each path meets if it meets from each path. -/
theorem Meets.iterate (h : t.Meets t.Beside walk walk') : t.Meets t.Facing (iterate walk) (iterate walk') := by
  intro paths paths' r r' out out' r₁ r₁' hfacing hrun hrun'
  -- a walk that meets another one keeps what is reported
  have hkeeps : ∀ p ∈ paths, ∀ ρ o ρ₁, walk p ρ = (.ok o, ρ₁) → ρ.Kept ρ₁ := by
    intro p hp ρ o ρ₁ ho
    obtain ⟨q, hq, hpq⟩ := hfacing.left p hp
    obtain ⟨_, _, _, ho', -⟩ := (iterate_spec hrun').2 q hq
    exact (h hpq ho ho').2.keeps
  have hkeeps' : ∀ q ∈ paths', ∀ ρ o ρ₁, walk' q ρ = (.ok o, ρ₁) → ρ.Kept ρ₁ := by
    intro q hq ρ o ρ₁ ho
    obtain ⟨p, hp, hpq⟩ := hfacing.right q hq
    obtain ⟨_, _, _, ho', -⟩ := (iterate_spec hrun).2 p hp
    exact (h hpq ho' ho).2.keeps'
  have tour := tour_iterate hkeeps hrun
  have tour' := tour_iterate hkeeps' hrun'
  exact h.tours tour tour' (fun hpq he => he ▸ hpq) (fun hpq he => he ▸ hpq) hfacing.left hfacing.right

/-! ## The parts of statements -/

theorem meets_idle : t.Meets t.Facing (outcome Run.idle) (outcome Run.idle) := by
  intro paths paths' r r' out out' r₁ r₁' hfacing hrun hrun'
  cases hrun
  cases hrun'
  exact ⟨hfacing, told_refl _⟩

theorem Meets.andThen {a a' b b' : Analysis} (ha : t.Meets t.Facing a.outcome a'.outcome)
    (hb : t.Meets t.Facing b.outcome b'.outcome) :
    t.Meets t.Facing (outcome fun paths report => (a paths report).andThen b)
      (outcome fun paths report => (a' paths report).andThen b') := by
  intro paths paths' r r' out out' r₁ r₁' hfacing hrun hrun'
  rw [outcome_andThen] at hrun hrun'
  obtain ⟨mid, r₂, hmid, hrun⟩ := chain_ok hrun
  obtain ⟨mid', r₂', hmid', hrun'⟩ := chain_ok hrun'
  obtain ⟨hfacing, htold⟩ := ha hfacing hmid hmid'
  obtain ⟨hfacing, htold'⟩ := hb hfacing hrun hrun'
  exact ⟨hfacing, htold.trans htold'⟩

section Steps

variable {step : Eval Unit} (hstep : ∀ σ, t.coupling.Runs σ Coupling.Any step step)

include hstep

theorem Beside.outcome {p' q' : Path} {r r' r₁ r₁' : Report} (h : t.Beside p q)
    (hp : step.outcome p r = (.ok p', r₁)) (hq : step.outcome q r' = (.ok q', r₁')) :
    t.Beside p' q' ∧ t.Told (r, r') (r₁, r₁') := by
  have hout := hstep (⟨p, r⟩, ⟨q, r'⟩) h
  unfold Eval.outcome at hp hq
  dsimp only at hout
  generalize step.run ⟨p, r⟩ = x at hout hp
  generalize step.run ⟨q, r'⟩ = y at hout hq
  cases hout with
  | error _ _ => cases hp
  | ok _ hlinked hlater =>
    cases hp
    cases hq
    exact ⟨hlinked, hlater⟩

theorem meets_onEach : t.Meets t.Facing (outcome (onEach step)) (outcome (onEach step)) := by
  have hwalk : t.Meets t.Beside (stepWalk step) (stepWalk step) := by
    intro p q r r' out out' r₁ r₁' hpq hp hq
    obtain ⟨p', _, hp', hp⟩ := chain_ok hp
    obtain ⟨q', _, hq', hq⟩ := chain_ok hq
    cases hp
    cases hq
    exact (hpq.outcome hstep hp' hq').imp_left facing_singleton
  intro paths paths' r r' out out' r₁ r₁' hfacing hrun hrun'
  rw [outcome_onEach] at hrun hrun'
  exact hwalk.iterate hfacing hrun hrun'

variable {body body' orelse orelse' : Analysis} (hbody : t.Meets t.Facing body.outcome body'.outcome)
  (horelse : t.Meets t.Facing orelse.outcome orelse'.outcome)

include hbody horelse

theorem meets_branchFrom : t.Meets t.Beside (branchFrom step body orelse) (branchFrom step body' orelse') := by
  intro p q r r' out out' r₁ r₁' hpq hp hq
  obtain ⟨p', r₂, hp', hp⟩ := chain_ok hp
  obtain ⟨yes, r₃, hyes, hp⟩ := chain_ok hp
  obtain ⟨no, r₄, hno, hp⟩ := chain_ok hp
  obtain ⟨q', r₂', hq', hq⟩ := chain_ok hq
  obtain ⟨yes', r₃', hyes', hq⟩ := chain_ok hq
  obtain ⟨no', r₄', hno', hq⟩ := chain_ok hq
  cases hp
  cases hq
  have hpq := hpq.remains (.rescope (p.scope + 1) .same) (.rescope (q.scope + 1) .same)
  obtain ⟨hpq, henter⟩ := hpq.outcome hstep hp' hq'
  have hentry := facing_singleton hpq.fork
  obtain ⟨hfacing, hthen⟩ := hbody hentry hyes hyes'
  obtain ⟨hfacing', helse⟩ := horelse hentry hno hno'
  exact ⟨hfacing.append hfacing', (henter.trans hthen).trans helse⟩

theorem meets_fork :
    t.Meets t.Facing (outcome (fork step body orelse [] [])) (outcome (fork step body' orelse' [] [])) := by
  intro paths paths' r r' out out' r₁ r₁' hfacing hrun hrun'
  obtain ⟨all, hall, hout⟩ := fork_ok .nil hrun
  obtain ⟨all', hall', hout'⟩ := fork_ok .nil hrun'
  obtain ⟨hfacing, htold⟩ := (meets_branchFrom hstep hbody horelse).iterate hfacing hall hall'
  exact ⟨hfacing.remains hout hout', htold⟩

omit horelse in
theorem meets_iteration : t.Meets t.Beside (iteration step body) (iteration step body') := by
  intro p q r r' out out' r₁ r₁' hpq hp hq
  obtain ⟨p', r₂, mid, hp', hmid, hout⟩ := iteration_ok hp
  obtain ⟨q', r₂', mid', hq', hmid', hout'⟩ := iteration_ok hq
  obtain ⟨hpq, henter⟩ := hpq.outcome hstep hp' hq'
  obtain ⟨hfacing, hthen⟩ := hbody (facing_singleton hpq) hmid hmid'
  have hremains : ∀ {l m : List Path}, (m = l.map (·.pop) ∨ m = l.map (·.pop.pop)) → List.Forall₂ Path.Remains l m := by
    rintro l m (rfl | rfl)
    · exact Path.remains_map (fun _ => .pop .same) l
    · exact Path.remains_map (fun _ => .pop (.pop .same)) l
  exact ⟨hfacing.remains (hremains hout) (hremains hout'), henter.trans hthen⟩

end Steps

end Meets

end Tilt

end TaintFlow
