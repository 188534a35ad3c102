import TaintFlow.Proofs.Height

/-
What a branch does to the conditions around it. Given one path, a branch whose parts restore the stack restores it.
Given several, the paths that came out for the earlier ones leave again for each later one, and lose a condition
around the branch each time. So a statement in nested branches is analysed under all of their tests exactly if,
in each of the regions around it, what stands before it there is steady.
-/
namespace TaintFlow

namespace Analysis

/-- Every path that comes out for one path has the stack of that path. -/
def Restores (a : Analysis) : Prop :=
  ∀ p report out, (a [p] report).paths? = .ok out → ∀ q ∈ out, SameStack p.control q.control

theorem Restores.height {a : Analysis} (ha : Restores a) {p q : Path} {out : List Path} (h : Leads a.outcome [p] out)
    (hq : q ∈ out) : q.height = p.height := by
  obtain ⟨r, r', h⟩ := h
  exact (List.Forall₂.length_eq (ha p r out (congrArg Prod.fst h) q hq)).symm

/-- Of an analysis that gives back beginnings of stacks, the stack is restored if the height is. -/
theorem Prunes.sameStack_iff {a : Analysis} (ha : Prunes a) {p q : Path} {out : List Path}
    (h : Leads a.outcome [p] out) (hq : q ∈ out) : SameStack p.control q.control ↔ q.height = p.height :=
  (ha.shortens h hq).sameStack_iff

/-! ## Branches -/

theorem height_fork_alone {enter : Eval Unit} {body orelse : Analysis} (he : Eval.Pushes enter) (hb : Restores body)
    (ho : Restores orelse) {p q : Path} {out : List Path} (h : Leads (outcome (fork enter body orelse [] [])) [p] out)
    (hq : q ∈ out) : q.height = p.height := by
  obtain ⟨p', yes, no, hp', hyes, hno, rfl⟩ := leads_fork_alone he h
  obtain ⟨q, hmem, rfl⟩ := List.mem_map.1 hq
  have hheight : q.height = p'.height := by
    rcases List.mem_append.1 hmem with hq | hq
    · exact hb.height hyes hq
    · exact ho.height hno hq
  show q.pop.height = p.height
  rw [Path.height_pop, hheight, hp', Nat.add_sub_cancel]

/-- A path that leaves a region more often than it entered it has its stack if there was none to lose. -/
theorem sameStack_leave_succ {p q : Path} (h : Shortens p.control q.control) (hheight : q.height = p.height) (n : Nat) :
    SameStack p.control (leave^[n + 1] q).control ↔ p.control = [] := by
  rw [(h.leave_iterate (n + 1)).sameStack_iff]
  show (leave^[n + 1] q).height = p.height ↔ _
  rw [height_leave_iterate, hheight, ← List.length_eq_zero_iff]
  show _ ↔ p.height = 0
  omega

/-- All but the paths of the last given path leave more often than they entered. -/
theorem restored_leaveLater_iff {paths : List Path} {parts : List (List Path)}
    (h : List.Forall₂ (fun p part => part ≠ [] ∧ ∀ q ∈ part, Shortens p.control q.control ∧ q.height = p.height)
      paths parts) :
    List.Forall₂ (fun p part => ∀ q ∈ part, SameStack p.control q.control) paths (leaveLater parts) ↔
      ∀ p ∈ paths.dropLast, p.control = [] := by
  induction h with
  | nil => simp [leaveLater]
  | @cons p part rest parts hpart hrest ih =>
    obtain ⟨hne, hpart⟩ := hpart
    rw [leaveLater, List.forall₂_cons, ih]
    cases hrest with
    | nil =>
      have hsame : ∀ q ∈ part, SameStack p.control q.control := fun q hq =>
        (hpart q hq).1.sameStack_iff.2 (hpart q hq).2
      simpa using hsame
    | @cons p' part' rest parts _ _ =>
      rw [List.dropLast_cons_cons, List.forall_mem_cons, List.forall_mem_map, List.length_cons]
      refine and_congr_left fun _ => ?_
      constructor
      · intro hsame
        obtain ⟨q, hq⟩ := List.exists_mem_of_ne_nil _ hne
        exact (sameStack_leave_succ (hpart q hq).1 (hpart q hq).2 _).1 (hsame q hq)
      · intro hnil q hq
        exact (sameStack_leave_succ (hpart q hq).1 (hpart q hq).2 _).2 hnil

theorem leads_fork_restored {enter : Eval Unit} {body orelse : Analysis} (he : Eval.Pushes enter) (hb : Restores body)
    (ho : Restores orelse) (hr : Regional (fork enter body orelse [] [])) {paths out : List Path}
    (h : Leads (outcome (fork enter body orelse [] [])) paths out) :
    ∃ parts, List.Forall₂ (fun p part => Leads (outcome (fork enter body orelse [] [])) [p] part ∧ part ≠ [] ∧
        ∀ q ∈ part, SameStack p.control q.control) paths parts ∧
      out = (leaveLater parts).flatten ∧
      (List.Forall₂ (fun p part => ∀ q ∈ part, SameStack p.control q.control) paths (leaveLater parts) ↔
        ∀ p ∈ paths.dropLast, p.control = []) := by
  obtain ⟨parts, hparts, rfl⟩ := leads_fork_each h
  have hheight : ∀ p part, Leads (outcome (fork enter body orelse [] [])) [p] part → ∀ q ∈ part, q.height = p.height :=
    fun p part hpart q hq => height_fork_alone he hb ho hpart hq
  refine ⟨parts, ?_, rfl, ?_⟩
  · refine hparts.imp fun p part hpart => ⟨hpart, hr.descends.ne_nil hpart, fun q hq => ?_⟩
    exact (hr.prunes.sameStack_iff hpart hq).2 (hheight p part hpart q hq)
  · refine restored_leaveLater_iff (hparts.imp fun p part hpart => ⟨hr.descends.ne_nil hpart, fun q hq => ?_⟩)
    exact ⟨hr.prunes.shortens hpart hq, hheight p part hpart q hq⟩

end Analysis

open Analysis

theorem Stmt.restores_of_steady [SetOrder] {edition : Edition} {limit : Nat} {s : Stmt} (h : s.steady true = true) :
    Restores (s.analyse edition limit) := by
  intro p report out hout q hq
  have hleads := leads_of_paths? hout
  have hprunes := s.prunes_analyse edition limit
  rw [hprunes.sameStack_iff hleads hq]
  rcases Nat.eq_zero_or_pos p.height with hzero | hpos
  · have hle := hprunes.height_le hleads hq
    omega
  · exact (s.steadies_analyse edition limit p.height [p] out hpos (by simp) (by simp) hleads).2 h q hq

/-! ## Nested branches -/

/-- The test is evaluated on the path, and its label goes on the stack, together with those around it. -/
def Enters [SetOrder] (edition : Edition) (test : Expr) (p q : Path) (m : Taint) : Prop :=
  ∃ r w w' condition control, (test.evaluate edition .condition).run ⟨p, r⟩ = (.ok condition, w) ∧
    (test.evaluate edition .control).run w = (.ok control, w') ∧
    m = (w'.path.currentControl.combine control).combine condition ∧ q = w'.path.push m

theorem Enters.control [SetOrder] {edition : Edition} {test : Expr} {p q : Path} {m : Taint}
    (h : Enters edition test p q m) :
    q.control = p.control ++ [m] := by
  obtain ⟨r, w, w', condition, control, hcondition, hcontrol, -, rfl⟩ := h
  have hw := (test.grows_evaluate edition .condition ⟨p, r⟩).path.control
  have hw' := (test.grows_evaluate edition .control w).path.control
  rw [hcondition] at hw
  rw [hcontrol] at hw'
  show w'.path.control ++ [m] = _
  rw [hw', hw]

theorem exists_enters [SetOrder] {edition : Edition} {test : Expr} {p q : Path}
    (h : Leads (Eval.enterTest edition test).outcome p q) : ∃ m, Enters edition test p q m := by
  obtain ⟨r, w, hrun, rfl⟩ := Eval.leads_outcome h
  unfold Eval.enterTest at hrun
  rw [Eval.run_bind] at hrun
  generalize hcondition : (test.evaluate edition .condition).run ⟨p, r⟩ = x at hrun
  obtain ⟨x, w₁⟩ := x
  cases x with
  | error f => cases hrun
  | ok condition =>
    dsimp only at hrun
    rw [Eval.run_bind] at hrun
    generalize hcontrol : (test.evaluate edition .control).run w₁ = y at hrun
    obtain ⟨y, w₂⟩ := y
    cases y with
    | error f => cases hrun
    | ok control =>
      cases hrun
      exact ⟨_, r, w₁, w₂, condition, control, hcondition, hcontrol, rfl, rfl⟩

/-- A branch in a block, with a hole in its body or in its other part. -/
structure Frame where
  before : List Stmt
  test : Expr
  inBody : Bool
  other : Stmt
  after : List Stmt

def Frame.fill (f : Frame) (inner : List Stmt) : List Stmt :=
  f.before ++ (if f.inBody then .branch f.test (.block inner) f.other else .branch f.test f.other (.block inner)) ::
    f.after

/-- A block in nested branches, the outermost first. -/
def Frame.fillAll (frames : List Frame) (inner : List Stmt) : List Stmt := frames.foldr Frame.fill inner

/-- The way from the path `p` at the start of a block into nested branches and through what stands before
a statement there: the statement is met by the path `q`, and `labels` went on the stack, one for each test. -/
inductive MetBy [SetOrder] (edition : Edition) (limit : Nat) (before : List Stmt) :
    List Frame → Path → List Taint → Path → Prop where
  | here {p q : Path} {mid : List Path} : Leads (outcome (Stmt.analyseBlock edition limit before)) [p] mid →
    q ∈ mid → MetBy edition limit before [] p [] q
  | inside {f : Frame} {frames : List Frame} {p p' r q : Path} {mid : List Path} {m : Taint} {labels : List Taint} :
    Leads (outcome (Stmt.analyseBlock edition limit f.before)) [p] mid → p' ∈ mid →
    Enters edition f.test { p' with scope := p'.scope + 1 } r m → MetBy edition limit before frames r.fork labels q →
    MetBy edition limit before (f :: frames) p (m :: labels) q

/-- What stands before the statement in its block, and before the branches around it in theirs, is steady. In a block
that is met with an empty stack, which is `free`, it need not be. -/
def steadyAround (before : List Stmt) : List Frame → (free : Bool) → Bool
  | [], free => free || Stmt.allSteady before true
  | f :: frames, free => (free || Stmt.allSteady f.before true) && steadyAround before frames false

section

variable {edition : Edition} {limit : Nat} {before : List Stmt}

theorem Stmt.prunes_analyseBlock [SetOrder] (edition : Edition) (limit : Nat) (body : List Stmt) :
    Prunes (Stmt.analyseBlock edition limit body) :=
  (Stmt.regional_analyseBlock edition limit body).prunes

theorem Enters.height_fork [SetOrder] {test : Expr} {p q : Path} {m : Taint} (h : Enters edition test p q m) :
    q.fork.height = p.height + 1 := by
  rw [Path.height_fork]
  unfold Path.height
  rw [h.control, List.length_append, List.length_singleton]

theorem MetBy.height_le [SetOrder] {frames : List Frame} {p q : Path} {labels : List Taint}
    (h : MetBy edition limit before frames p labels q) : q.height ≤ p.height + labels.length := by
  induction h with
  | here hmid hq => exact (Stmt.prunes_analyseBlock edition limit before).height_le hmid hq
  | @inside f frames p p' r q mid m labels hmid hp' henters _ ih =>
    have hle := (Stmt.prunes_analyseBlock edition limit f.before).height_le hmid hp'
    have hr : r.fork.height = p'.height + 1 := henters.height_fork
    rw [List.length_cons]
    omega

/-- A path that is as high as the tests are many has the stack that they made. -/
theorem MetBy.sameStack_iff [SetOrder] {frames : List Frame} {p q : Path} {labels : List Taint}
    (h : MetBy edition limit before frames p labels q) :
    SameStack (p.control ++ labels) q.control ↔ q.height = p.height + labels.length := by
  constructor
  · intro hsame
    have hlength := List.Forall₂.length_eq hsame
    rw [List.length_append] at hlength
    exact hlength.symm
  intro hheight
  induction h with
  | here hmid hq =>
    rw [List.append_nil]
    exact ((Stmt.prunes_analyseBlock edition limit before).sameStack_iff hmid hq).2 hheight
  | @inside f frames p p' r q mid m labels hmid hp' henters hmet ih =>
    have hprunes := Stmt.prunes_analyseBlock edition limit f.before
    have hle := hprunes.height_le hmid hp'
    have hle' := hmet.height_le
    have hr : r.fork.height = p'.height + 1 := henters.height_fork
    rw [List.length_cons] at hheight
    have hsame : SameStack p.control p'.control := (hprunes.sameStack_iff hmid hp').2 (by omega)
    have hfork : SameStack (p'.control ++ [m]) r.fork.control := by
      have hcontrol : r.control = p'.control ++ [m] := henters.control
      rw [← hcontrol]
      exact (Shortens.keep r.control r).sameStack_iff.2 (List.length_map _)
    have hone : SameStack [m] [m] := (Shortens.refl [m]).sameStack_iff.2 rfl
    have hrest : SameStack labels labels := (Shortens.refl labels).sameStack_iff.2 rfl
    have hall := ((hsame.append hone).trans hfork).append hrest
    rw [List.append_assoc] at hall
    exact hall.trans (ih (by omega))

/-- A run through a block runs through each branch of it for each path. -/
theorem Frame.leads_inner [SetOrder] {f : Frame} {inner : List Stmt} {p : Path} {out : List Path}
    (h : Leads (outcome (Stmt.analyseBlock edition limit (f.fill inner))) [p] out) :
    ∃ mid, Leads (outcome (Stmt.analyseBlock edition limit f.before)) [p] mid ∧ mid ≠ [] ∧
      ∀ p' ∈ mid, ∃ r m out', Enters edition f.test { p' with scope := p'.scope + 1 } r m ∧
        Leads (outcome (Stmt.analyseBlock edition limit inner)) [r.fork] out' := by
  obtain ⟨ρ, ρ', h⟩ := h
  rw [Frame.fill, Stmt.outcome_analyseBlock_append] at h
  obtain ⟨mid, ρ₁, hmid, h⟩ := chain_ok h
  have hmid : Leads (outcome (Stmt.analyseBlock edition limit f.before)) [p] mid := ⟨ρ, ρ₁, hmid⟩
  refine ⟨mid, hmid, (Stmt.regional_analyseBlock edition limit f.before).descends.ne_nil hmid, fun p' hp' => ?_⟩
  rw [Stmt.analyseBlock, outcome_andThen] at h
  obtain ⟨mid', ρ₂, hbranch, -⟩ := chain_ok h
  cases hside : f.inBody <;> rw [hside] at hbranch <;> rw [Stmt.analyse.eq_def] at hbranch
  all_goals
    obtain ⟨parts, hparts, -⟩ := leads_fork ⟨ρ₁, ρ₂, hbranch⟩
    obtain ⟨part, -, r, yes, no, henter, hyes, hno, -⟩ := forall₂_mem_right (List.Forall₂.flip hparts) p' hp'
    obtain ⟨m, henters⟩ := exists_enters henter
  · exact ⟨r, m, no, henters, by rwa [Stmt.analyse.eq_def] at hno⟩
  · exact ⟨r, m, yes, henters, by rwa [Stmt.analyse.eq_def] at hyes⟩

theorem exists_before [SetOrder] {s : Stmt} {after : List Stmt} {p : Path} {out : List Path}
    (h : Leads (outcome (Stmt.analyseBlock edition limit (before ++ s :: after))) [p] out) :
    ∃ mid, Leads (outcome (Stmt.analyseBlock edition limit before)) [p] mid := by
  obtain ⟨r, r', h⟩ := h
  rw [Stmt.outcome_analyseBlock_append] at h
  obtain ⟨mid, r₁, hmid, -⟩ := chain_ok h
  exact ⟨mid, r, r₁, hmid⟩

/-- In a run without a fault every statement is met. -/
theorem exists_metBy [SetOrder] {s : Stmt} {after : List Stmt} : ∀ {frames : List Frame} {p : Path} {out : List Path},
    Leads (outcome (Stmt.analyseBlock edition limit (Frame.fillAll frames (before ++ s :: after)))) [p] out →
      ∃ labels q, MetBy edition limit before frames p labels q
  | [], p, out, h => by
    obtain ⟨mid, hmid⟩ := exists_before h
    have hne := (Stmt.regional_analyseBlock edition limit before).descends.ne_nil hmid
    obtain ⟨q, hq⟩ := List.exists_mem_of_ne_nil _ hne
    exact ⟨[], q, .here hmid hq⟩
  | f :: frames, p, out, h => by
    obtain ⟨mid, hmid, hne, hinner⟩ := Frame.leads_inner h
    obtain ⟨p', hp'⟩ := List.exists_mem_of_ne_nil _ hne
    obtain ⟨r, m, out', henters, hinner⟩ := hinner p' hp'
    obtain ⟨labels, q, hmet⟩ := exists_metBy hinner
    exact ⟨m :: labels, q, .inside hmid hp' henters hmet⟩

/-- What stands before a statement in its block keeps the height of all paths exactly if it is steady, or there is no
height to lose. -/
theorem heights_kept_iff [SetOrder] {body : List Stmt} {p : Path} {mid : List Path}
    (h : Leads (outcome (Stmt.analyseBlock edition limit body)) [p] mid) :
    (∀ q ∈ mid, q.height = p.height) ↔ (decide (p.height = 0) || Stmt.allSteady body true) = true := by
  rw [Bool.or_eq_true, decide_eq_true_eq]
  rcases Nat.eq_zero_or_pos p.height with hzero | hpos
  · refine iff_of_true (fun q hq => ?_) (.inl hzero)
    have hle := (Stmt.prunes_analyseBlock edition limit body).height_le h hq
    omega
  · rw [Stmt.steadies_analyseBlock edition limit body p.height [p] mid hpos (by simp) (by simp) h]
    have hne : p.height ≠ 0 := by omega
    simp [hne]

theorem MetBy.height_of_steady [SetOrder] {frames : List Frame} {p q : Path} {labels : List Taint}
    (h : MetBy edition limit before frames p labels q)
    (hsteady : steadyAround before frames (p.height = 0) = true) : q.height = p.height + labels.length := by
  induction h with
  | here hmid hq => exact (heights_kept_iff hmid).2 hsteady _ hq
  | @inside f frames p p' r q mid m labels hmid hp' henters _ ih =>
    rw [steadyAround, Bool.and_eq_true] at hsteady
    have hkept := (heights_kept_iff hmid).2 hsteady.1 p' hp'
    have hr : r.fork.height = p'.height + 1 := henters.height_fork
    have hfree : decide (r.fork.height = 0) = false := decide_eq_false (by omega)
    have hheight := ih (by rw [hfree]; exact hsteady.2)
    rw [List.length_cons]
    omega

/-- A statement that is met by paths of full height only has steady statements before it. -/
theorem steadyAround_of_heights [SetOrder] {s : Stmt} {after : List Stmt} :
    ∀ {frames : List Frame} {p : Path} {out : List Path},
    Leads (outcome (Stmt.analyseBlock edition limit (Frame.fillAll frames (before ++ s :: after)))) [p] out →
      (∀ labels q, MetBy edition limit before frames p labels q → q.height = p.height + labels.length) →
      steadyAround before frames (p.height = 0) = true
  | [], p, out, h, hall => by
    obtain ⟨mid, hmid⟩ := exists_before h
    exact (heights_kept_iff hmid).1 fun q hq => hall [] q (.here hmid hq)
  | f :: frames, p, out, h, hall => by
    obtain ⟨mid, hmid, hne, hinner⟩ := Frame.leads_inner h
    -- a path that is too low where it enters the branch is too low where it meets the statement
    have hkept : ∀ p' ∈ mid, p'.height = p.height := by
      intro p' hp'
      obtain ⟨r, m, out', henters, hinner⟩ := hinner p' hp'
      obtain ⟨labels, q, hmet⟩ := exists_metBy hinner
      have hheight := hall (m :: labels) q (.inside hmid hp' henters hmet)
      have hle := (Stmt.prunes_analyseBlock edition limit f.before).height_le hmid hp'
      have hle' := hmet.height_le
      have hr : r.fork.height = p'.height + 1 := henters.height_fork
      rw [List.length_cons] at hheight
      omega
    rw [steadyAround, Bool.and_eq_true]
    refine ⟨(heights_kept_iff hmid).1 hkept, ?_⟩
    obtain ⟨p', hp'⟩ := List.exists_mem_of_ne_nil _ hne
    obtain ⟨r, m, out', henters, hinner⟩ := hinner p' hp'
    have hr : r.fork.height = p'.height + 1 := henters.height_fork
    have hfree : decide (r.fork.height = 0) = false := decide_eq_false (by omega)
    rw [← hfree]
    refine steadyAround_of_heights hinner fun labels q hmet => ?_
    have hheight := hall (m :: labels) q (.inside hmid hp' henters hmet)
    rw [List.length_cons, ← hkept p' hp'] at hheight
    omega

end

/-- A branch whose parts restore the stack restores it for one path. For several paths, it leads each of them to where
it leads it alone, and what comes out leaves again for each later path: all stacks are restored exactly if the
stacks of all but the last path are empty. A statement in nested branches is met by paths with the labels of all their
tests on the stack, in a run without a fault, exactly if what stands before it in these branches is steady. -/
theorem branch_restores_stacks_iff [SetOrder] (edition : Edition) (limit : Nat) :
    (∀ test body orelse, Restores (body.analyse edition limit) → Restores (orelse.analyse edition limit) →
      let branch := (Stmt.branch test body orelse).analyse edition limit
      ∀ paths report out, (branch paths report).paths? = .ok out →
        ∃ parts, List.Forall₂ (fun p part => Leads branch.outcome [p] part ∧ part ≠ [] ∧
            ∀ q ∈ part, SameStack p.control q.control) paths parts ∧
          out = (leaveLater parts).flatten ∧
          (List.Forall₂ (fun p part => ∀ q ∈ part, SameStack p.control q.control) paths (leaveLater parts) ↔
            ∀ p ∈ paths.dropLast, p.control = [])) ∧
    ∀ frames before s after p report out,
      ((Stmt.block (Frame.fillAll frames (before ++ s :: after))).analyse edition limit [p] report).paths? = .ok out →
      ((∀ labels q, MetBy edition limit before frames p labels q → SameStack (p.control ++ labels) q.control) ↔
        steadyAround before frames (p.control = []) = true) := by
  constructor
  · intro test body orelse hbody horelse branch paths report out h
    have hregional : Regional branch := (Stmt.branch test body orelse).regional_analyse edition limit
    have hbranch : branch = fork (Eval.enterTest edition test) (body.analyse edition limit)
        (orelse.analyse edition limit) [] [] := Stmt.analyse.eq_def ..
    have hleads := leads_of_paths? h
    clear_value branch
    subst hbranch
    exact leads_fork_restored (Eval.pushes_enterTest edition test) hbody horelse hregional hleads
  · intro frames before s after p report out h
    rw [Stmt.analyse] at h
    have hfree : decide (p.control = []) = decide (p.height = 0) := decide_eq_decide.2 List.length_eq_zero_iff.symm
    rw [hfree]
    constructor
    · intro hall
      exact steadyAround_of_heights (leads_of_paths? h) fun labels q hmet => hmet.sameStack_iff.1 (hall labels q hmet)
    · exact fun hsteady labels q hmet => hmet.sameStack_iff.2 (hmet.height_of_steady hsteady)

/-- Both stacks are restored where the first of two paths has none to lose. In `if t: (if b: x = 0); z = 0` the
assignment to `z` is met by paths with the label of `t` on the stack. -/
theorem branch_restores_second_stack :
    let a : Pattern := { name := "A", sources := ["get"], sinks := ["sink"], modes := [], implicit := true }
    let p : Path := (Path.start [a]).push ((Path.start [a]).addSource (Path.start [a]).clean "get" { line := 1 })
    let put (x : String) (line : Int) : Stmt := .assign [.name x] .inert { line }
    let inner : Stmt := .branch (.name "b" { line := 2 }) (.block [put "x" 3]) (.block [])
    let f : Frame := ⟨[], .name "t" { line := 1 }, true, .block [], []⟩
    (∃ out, (inner.analyse .plain 5 [Path.start [a], p] {}).paths? = .ok out ∧ out.map (·.height) = [0, 0, 1, 1] ∧
      ∃ parts, out = (leaveLater parts).flatten ∧ List.Forall₂ (fun p part => ∀ q ∈ part, SameStack p.control q.control)
        [Path.start [a], p] (leaveLater parts)) ∧
    (∃ labels q, MetBy .plain 5 [inner] [f] (Path.start [a]) labels q) ∧
    ∀ labels q, MetBy .plain 5 [inner] [f] (Path.start [a]) labels q → SameStack labels q.control := by
  intro a p put inner f
  obtain ⟨hbranch, hnested⟩ := branch_restores_stacks_iff .plain 5
  refine ⟨?_, ?_⟩
  · have hheights : (inner.analyse .plain 5 [Path.start [a], p] {}).paths?.toOption.map (·.map (·.height)) =
        some [0, 0, 1, 1] := by
      decide +kernel
    obtain ⟨out, hout, hheights⟩ := ok_of_toOption_map hheights
    obtain ⟨parts, -, hflat, hiff⟩ := hbranch _ _ _ (Stmt.restores_of_steady rfl) (Stmt.restores_of_steady rfl)
      [Path.start [a], p] {} out hout
    exact ⟨out, hout, hheights, parts, hflat, hiff.2 (List.forall_mem_singleton.2 rfl)⟩
  · have hruns : ((Stmt.block (Frame.fillAll [f] ([inner] ++ [put "z" 4]))).analyse .plain 5
        [Path.start [a]] {}).paths?.toOption.map (·.length) = some 3 := by
      decide +kernel
    obtain ⟨out, hout, -⟩ := ok_of_toOption_map hruns
    have hleads := leads_of_paths? hout
    rw [Stmt.analyse] at hleads
    exact ⟨exists_metBy hleads, (hnested [f] [inner] (put "z" 4) [] (Path.start [a]) {} out hout).2 rfl⟩

/-- Two paths come to a branch with one condition around each: the paths that come out for the first have none. In
`if t: (if b: x = 0); (if c: y = 0); z = 0` the assignment to `z` is met by a path without the label of
`t`, and on the first two of the five paths at the end nothing of `t` is on `z`. -/
theorem stacks_lost_after_branches :
    let a : Pattern := { name := "A", sources := ["get"], sinks := ["sink"], modes := [], implicit := true }
    let p : Path := (Path.start [a]).push ((Path.start [a]).addSource (Path.start [a]).clean "get" { line := 1 })
    let put (x : String) (line : Int) : Stmt := .assign [.name x] .inert { line }
    let inner (test x : String) (line : Int) : Stmt :=
      .branch (.name test { line }) (.block [put x (line + 1)]) (.block [])
    let before : List Stmt := [inner "b" "x" 3, inner "c" "y" 5]
    let f : Frame := ⟨[put "z" 1], .name "t" { line := 2 }, true, .block [], []⟩
    let program : Stmt := .block (Frame.fillAll [f] (before ++ [put "z" 7]))
    ((inner "c" "x" 2).analyse .plain 5 [p, p] {}).paths?.toOption.map (·.map (·.height)) = some [0, 0, 1, 1] ∧
    ((inner "c" "x" 2).analyse .scoped 5 [p, p] {}).paths?.toOption.map (·.map (·.height)) = some [0, 0, 1, 1] ∧
    (∃ labels q, MetBy .plain 5 before [f] (Path.start [a]) labels q ∧ q.height < labels.length) ∧
    (analyseProgram .plain 5 [a] program).2.paths.map
      (fun q => ((q.controlLabels.get? "z").bind (·.label? "A")).map (·.sources)) =
        [some [], some [], some ["t"], some ["t"], some []] := by
  intro a p put inner before f program
  refine ⟨by decide +kernel, by decide +kernel, ?_, by decide +kernel⟩
  have hruns : (program.analyse .plain 5 [Path.start [a]] {}).paths?.toOption.map (·.length) = some 5 := by
    decide +kernel
  obtain ⟨out, hout, -⟩ := ok_of_toOption_map hruns
  have hleads := leads_of_paths? hout
  rw [Stmt.analyse] at hleads
  by_contra hnone
  -- if all paths had the label of the test, the two branches would be steady
  have hsteady := steadyAround_of_heights hleads fun labels q hmet => by
    refine le_antisymm hmet.height_le ?_
    have hle : ¬ q.height < labels.length := fun hlt => hnone ⟨labels, q, hmet, hlt⟩
    show 0 + labels.length ≤ q.height
    omega
  cases hsteady

end TaintFlow
