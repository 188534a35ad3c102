import TaintFlow.Proofs.Contract
import TaintFlow.Proofs.Discipline
import TaintFlow.Proofs.Visits

/-
Every state that an analysis reaches: the paths each of its parts is given and those it leaves, also when
a fault stops it, in every round of every search of a loop. If a property of paths and a property of
reports are kept by the steps on one path, by forks and by leaving a region, then all states that are
reached have the first and the report has the second.
-/
namespace TaintFlow

/-! ## The states reached -/

namespace Analysis

/-- The states of a part of an analysis: those it is given, those inside of it, and those it leaves. -/
def states (a : Analysis) (inside : List Path → Report → List Path) (paths : List Path) (report : Report) :
    List Path :=
  paths ++ inside paths report ++ (a paths report).given ++ (a paths report).paths?.toOption.getD []

def iterationStates (enter : Eval Unit) (inside : List Path → Report → List Path) (p : Path) (report : Report) :
    List Path :=
  p :: (enter.run ⟨p, report⟩).2.path :: iterationVisits enter inside p report

def loopStates (limit : Nat) (depth : Int) (enter : Eval Unit) (body : Analysis)
    (inside insideElse : List Path → Report → List Path) (p : Path) (report : Report) : List Path :=
  settleVisits Path.same (rounds depth enter body (entry depth p))
      (fun n => unrollVisits (iteration enter body) (iterationStates enter inside) n [entry depth p])
      limit 0 [] report ++
    match search limit depth enter body p report with
    | (.error _, _) => []
    | (.ok _, report) => insideElse [entry depth p] report

end Analysis

mutual

/-- The states that the analysis of a statement reaches. -/
def Stmt.reached [SetOrder] (edition : Edition) (limit : Nat) : Stmt → List Path → Report → List Path
  | .block body => Analysis.states (Stmt.analyseBlock edition limit body) (Stmt.reachedBlock edition limit body)
  | .branch test body orelse =>
    Analysis.states (Stmt.analyse edition limit (.branch test body orelse))
      (Analysis.forkVisits (Eval.enterTest edition test) (body.analyse edition limit) (orelse.analyse edition limit)
        (body.reached edition limit) (orelse.reached edition limit))
  | .loop test body orelse =>
    Analysis.states (Stmt.analyse edition limit (.loop test body orelse))
      (Analysis.iterateVisits
        (Analysis.loopFrom limit 0 (Eval.enterTest edition test) (body.analyse edition limit)
          (orelse.analyse edition limit))
        (Analysis.loopStates limit 0 (Eval.enterTest edition test) (body.analyse edition limit)
          (body.reached edition limit) (orelse.reached edition limit)))
  | .each target iter body orelse spot =>
    Analysis.states (Stmt.analyse edition limit (.each target iter body orelse spot))
      (Analysis.iterateVisits
        (Analysis.loopFrom limit 1 (Eval.enterItem edition target iter { line := spot.line })
          (body.analyse edition limit) (orelse.analyse edition limit))
        (Analysis.loopStates limit 1 (Eval.enterItem edition target iter { line := spot.line })
          (body.analyse edition limit) (body.reached edition limit) (orelse.reached edition limit)))
  | s => Analysis.states (s.analyse edition limit) fun _ _ => []

def Stmt.reachedBlock [SetOrder] (edition : Edition) (limit : Nat) : List Stmt → List Path → Report → List Path
  | [] => fun _ _ => []
  | s :: rest => fun paths report =>
    let r := s.analyse edition limit paths report
    s.reached edition limit paths report ++ match r.paths? with
      | .error _ => []
      | .ok next => Stmt.reachedBlock edition limit rest next r.report

end

/-! ## Properties that are kept -/

/-- The step keeps a property of paths and a property of reports, also when it faults. -/
def Eval.Upholds (P : Path → Prop) (R : Report → Prop) {α : Type} (x : Eval α) : Prop :=
  ∀ p r, P p → R r → P (x.run ⟨p, r⟩).2.path ∧ R (x.run ⟨p, r⟩).2.report

/-- An invariant that looks at the path and at the report apart. -/
theorem Eval.Preserves.upholds {I : World → Prop} {P : Path → Prop} {R : Report → Prop}
    (hinv : ∀ w, I w ↔ P w.path ∧ R w.report) {α : Type} {x : Eval α} (hx : x.Preserves I) : x.Upholds P R :=
  fun p r hp hr => (hinv _).1 (hx ⟨p, r⟩ ((hinv ⟨p, r⟩).2 ⟨hp, hr⟩) trivial).1

/-- The property survives copies, and leaving a region. -/
structure Path.Inherited (P : Path → Prop) : Prop where
  fork : ∀ p, P p → P p.fork
  pop : ∀ p, P p → P p.pop
  scope : ∀ p k, P p → P { p with scope := k }

namespace Analysis

variable {P : Path → Prop} {R : Report → Prop}

/-- The paths that come out of a walk have the property, and the report has its own. -/
def Within (P : Path → Prop) (R : Report → Prop) (x : Except Fault (List Path) × Report) : Prop :=
  (∀ out, x.1 = .ok out → ∀ p ∈ out, P p) ∧ R x.2

/-- From paths and a report with the properties, the states inside, the paths that are left or go on and the
report have them. -/
def Upholds (P : Path → Prop) (R : Report → Prop) (a : Analysis) (inside : List Path → Report → List Path) : Prop :=
  ∀ paths report, (∀ p ∈ paths, P p) → R report →
    (∀ p ∈ inside paths report, P p) ∧ (∀ p ∈ (a paths report).given, P p) ∧
      Within P R ((a paths report).paths?, (a paths report).report)

/-- The same for a walk from one path. -/
def WalkUpholds (P : Path → Prop) (R : Report → Prop) (step : Walk) (inside : Path → Report → List Path) : Prop :=
  ∀ p report, P p → R report → (∀ q ∈ inside p report, P q) ∧ Within P R (step p report)

theorem within_error {f : Fault} {r : Report} (h : R r) : Within P R (.error f, r) :=
  ⟨fun _ ho => (by cases ho), h⟩

theorem within_ok {out : List Path} {r : Report} (ho : ∀ p ∈ out, P p) (h : R r) : Within P R (.ok out, r) :=
  ⟨fun _ ho' => Except.ok.inj ho' ▸ ho, h⟩

theorem Upholds.states {a : Analysis} {inside : List Path → Report → List Path} (h : Upholds P R a inside) :
    Upholds P R a (a.states inside) := by
  intro paths report hp hr
  obtain ⟨hin, hgiven, hout⟩ := h paths report hp hr
  refine ⟨?_, hgiven, hout⟩
  unfold Analysis.states
  rw [List.forall_mem_append, List.forall_mem_append, List.forall_mem_append]
  refine ⟨⟨⟨hp, hin⟩, hgiven⟩, ?_⟩
  cases ho : (a paths report).paths? with
  | error f => exact List.forall_mem_nil _
  | ok out => exact hout.1 out ho

theorem upholds_idle : Upholds P R Run.idle fun _ _ => [] :=
  fun _ _ hp hr => ⟨List.forall_mem_nil _, hp, within_ok hp hr⟩

theorem upholds_stop {fault : Fault} : Upholds P R (fun paths report => .stop paths report fault) fun _ _ => [] :=
  fun _ _ hp hr => ⟨List.forall_mem_nil _, hp, within_error hr⟩

theorem Upholds.andThen {a b : Analysis} {inside inside' : List Path → Report → List Path} (ha : Upholds P R a inside)
    (hb : Upholds P R b inside') :
    Upholds P R (fun paths report => (a paths report).andThen b) fun paths report =>
      inside paths report ++ match (a paths report).paths? with
        | .error _ => []
        | .ok next => inside' next (a paths report).report := by
  intro paths report hp hr
  obtain ⟨hin, hgiven, hout⟩ := ha paths report hp hr
  dsimp only
  generalize a paths report = r at hgiven hout ⊢
  obtain ⟨given, report₁, result⟩ := r
  rw [List.forall_mem_append]
  match result with
  | .error f => exact ⟨⟨hin, List.forall_mem_nil _⟩, hgiven, within_error hout.2⟩
  | .ok none =>
    obtain ⟨hin', hrun⟩ := hb given report₁ hgiven hout.2
    exact ⟨⟨hin, hin'⟩, hrun⟩
  | .ok (some new) =>
    obtain ⟨hin', -, hout'⟩ := hb new report₁ (hout.1 new rfl) hout.2
    refine ⟨⟨hin, hin'⟩, hgiven, ?_⟩
    show Within P R (Run.paths? ⟨given, _, (b new report₁).paths?.map some⟩, (b new report₁).report)
    cases ho : (b new report₁).paths? with
    | error f => exact within_error hout'.2
    | ok out => exact within_ok (hout'.1 out ho) hout'.2

theorem upholds_onEach {step : Eval Unit} (h : step.Upholds P R) : Upholds P R (onEach step) fun _ _ => [] := by
  intro paths
  induction paths with
  | nil => exact upholds_idle []
  | cons p rest ih =>
    intro report hp hr
    rw [List.forall_mem_cons] at hp
    have hstep := h p report hp.1 hr
    rw [onEach]
    generalize step.run ⟨p, report⟩ = x at hstep
    obtain ⟨x, w⟩ := x
    cases x with
    | error f => exact ⟨List.forall_mem_nil _, List.forall_mem_cons.2 ⟨hstep.1, hp.2⟩, within_error hstep.2⟩
    | ok u =>
      obtain ⟨-, hgiven, hout⟩ := ih w.report hp.2 hstep.2
      dsimp only
      generalize onEach step rest w.report = r at hgiven hout ⊢
      obtain ⟨given, report', result⟩ := r
      refine ⟨List.forall_mem_nil _, List.forall_mem_cons.2 ⟨hstep.1, hgiven⟩, ?_⟩
      cases result with
      | error f => exact within_error hout.2
      | ok result => cases result with
        | none => exact within_ok (List.forall_mem_cons.2 ⟨hstep.1, hgiven⟩) hout.2
        | some new => exact within_ok (hout.1 new rfl) hout.2

theorem upholds_fork (hP : Path.Inherited P) {enter : Eval Unit} {body orelse : Analysis}
    {inside insideElse : List Path → Report → List Path} (he : enter.Upholds P R) (hb : Upholds P R body inside)
    (ho : Upholds P R orelse insideElse) : ∀ (paths : List Path) {done new : List Path} {report : Report},
    (∀ p ∈ paths, P p) → (∀ p ∈ done, P p) → (∀ p ∈ new, P p) → R report →
    (∀ p ∈ forkVisits enter body orelse inside insideElse paths report, P p) ∧
      (∀ p ∈ (fork enter body orelse done new paths report).given, P p) ∧
      Within P R ((fork enter body orelse done new paths report).paths?,
        (fork enter body orelse done new paths report).report)
  | [], done, new, report, _, hd, hn, hr => ⟨List.forall_mem_nil _, hd, within_ok hn hr⟩
  | p :: rest, done, new, report, hp, hd, hn, hr => by
    rw [List.forall_mem_cons] at hp
    obtain ⟨hp, hrest⟩ := hp
    have henter := he _ report (hP.scope p (p.scope + 1) hp) hr
    rw [fork, forkVisits]
    generalize enter.run ⟨{ p with scope := p.scope + 1 }, report⟩ = x at henter
    obtain ⟨x, w⟩ := x
    obtain ⟨hw, hwr⟩ := henter
    have hstop : ∀ q ∈ done ++ w.path :: rest, P q :=
      List.forall_mem_append.2 ⟨hd, List.forall_mem_cons.2 ⟨hw, hrest⟩⟩
    have hcopy : ∀ q ∈ [w.path.fork], P q := List.forall_mem_singleton.2 (hP.fork _ hw)
    cases x with
    | error f => exact ⟨List.forall_mem_nil _, hstop, within_error hwr⟩
    | ok u =>
      obtain ⟨hin, -, hyes, hr₁⟩ := hb [w.path.fork] w.report hcopy hwr
      dsimp only at hyes hr₁ ⊢
      generalize body [w.path.fork] w.report = r₁ at hyes hr₁
      cases h₁ : r₁.paths? with
      | error f =>
        rw [h₁] at hyes
        exact ⟨List.forall_mem_append.2 ⟨hin, List.forall_mem_nil _⟩, hstop, within_error hr₁⟩
      | ok yes =>
        obtain ⟨hin', -, hno, hr₂⟩ := ho [w.path.fork] r₁.report hcopy hr₁
        dsimp only at hno hr₂ ⊢
        generalize orelse [w.path.fork] r₁.report = r₂ at hno hr₂
        cases h₂ : r₂.paths? with
        | error f =>
          exact ⟨List.forall_mem_append.2 ⟨hin, List.forall_mem_append.2 ⟨hin', List.forall_mem_nil _⟩⟩, hstop,
            within_error hr₂⟩
        | ok no =>
          have hnew : ∀ q ∈ (new ++ yes ++ no).map leave, P q := by
            have hall : ∀ q ∈ new ++ yes ++ no, P q :=
              List.forall_mem_append.2 ⟨List.forall_mem_append.2 ⟨hn, hyes yes h₁⟩, hno no h₂⟩
            exact List.forall_mem_map.2 fun q hq => hP.scope _ _ (hP.pop q (hall q hq))
          have hdone : ∀ q ∈ done ++ [w.path.pop], P q :=
            List.forall_mem_append.2 ⟨hd, List.forall_mem_singleton.2 (hP.pop _ hw)⟩
          obtain ⟨hin'', hrun⟩ := upholds_fork hP he hb ho rest hrest hdone hnew hr₂
          exact ⟨List.forall_mem_append.2 ⟨hin, List.forall_mem_append.2 ⟨hin', hin''⟩⟩, hrun⟩

theorem upholds_iteration (hP : Path.Inherited P) {enter : Eval Unit} {body : Analysis}
    {inside : List Path → Report → List Path} (he : enter.Upholds P R) (hb : Upholds P R body inside) :
    WalkUpholds P R (iteration enter body) (iterationStates enter inside) := by
  intro p report hp hr
  have henter := he p report hp hr
  unfold iteration iterationStates iterationVisits
  generalize enter.run ⟨p, report⟩ = x at henter
  obtain ⟨x, w⟩ := x
  obtain ⟨hw, hwr⟩ := henter
  rw [List.forall_mem_cons, List.forall_mem_cons]
  cases x with
  | error f => exact ⟨⟨hp, hw, List.forall_mem_nil _⟩, within_error hwr⟩
  | ok u =>
    obtain ⟨hin, hgiven, hout⟩ := hb [w.path] w.report (List.forall_mem_singleton.2 hw) hwr
    refine ⟨⟨hp, hw, hin⟩, ?_⟩
    dsimp only
    generalize body [w.path] w.report = r at hgiven hout ⊢
    obtain ⟨given, report', result⟩ := r
    match result with
    | .error f => exact within_error hout.2
    | .ok none =>
      exact within_ok (List.forall_mem_map.2 fun q hq => hP.pop _ (hP.pop q (hgiven q hq))) hout.2
    | .ok (some new) =>
      exact within_ok (List.forall_mem_map.2 fun q hq => hP.pop q (hout.1 new rfl q hq)) hout.2

theorem upholds_iterate {step : Walk} {inside : Path → Report → List Path} (hs : WalkUpholds P R step inside) :
    ∀ (paths : List Path) (report : Report), (∀ p ∈ paths, P p) → R report →
      (∀ q ∈ iterateVisits step inside paths report, P q) ∧ Within P R (iterate step paths report)
  | [], report, hp, hr => ⟨List.forall_mem_nil _, within_ok hp hr⟩
  | p :: rest, report, hp, hr => by
    rw [List.forall_mem_cons] at hp
    obtain ⟨hin, hout⟩ := hs p report hp.1 hr
    rw [iterate, iterateVisits]
    generalize step p report = x at hout
    obtain ⟨x, report₁⟩ := x
    cases x with
    | error f => exact ⟨List.forall_mem_append.2 ⟨hin, List.forall_mem_nil _⟩, within_error hout.2⟩
    | ok first =>
      obtain ⟨hin', hout'⟩ := upholds_iterate hs rest report₁ hp.2 hout.2
      refine ⟨List.forall_mem_append.2 ⟨hin, hin'⟩, ?_⟩
      dsimp only
      generalize iterate step rest report₁ = y at hout' ⊢
      obtain ⟨y, report₂⟩ := y
      cases y with
      | error f => exact within_error hout'.2
      | ok others =>
        exact within_ok (List.forall_mem_append.2 ⟨hout.1 first rfl, hout'.1 others rfl⟩) hout'.2

theorem upholds_unroll {step : Walk} {inside : Path → Report → List Path} (hs : WalkUpholds P R step inside) :
    ∀ (n : Nat) (paths : List Path) (report : Report), (∀ p ∈ paths, P p) → R report →
      (∀ q ∈ unrollVisits step inside n paths report, P q) ∧ Within P R (unroll step n paths report)
  | 0, paths, report, hp, hr => ⟨List.forall_mem_nil _, within_ok hp hr⟩
  | n + 1, paths, report, hp, hr => by
    obtain ⟨hin, hout⟩ := upholds_iterate hs paths report hp hr
    rw [unroll, unrollVisits]
    generalize iterate step paths report = x at hout
    obtain ⟨x, report₁⟩ := x
    cases x with
    | error f => exact ⟨List.forall_mem_append.2 ⟨hin, List.forall_mem_nil _⟩, within_error hout.2⟩
    | ok next =>
      obtain ⟨hin', hout'⟩ := upholds_unroll hs n next report₁ (hout.1 next rfl) hout.2
      exact ⟨List.forall_mem_append.2 ⟨hin, hin'⟩, hout'⟩

theorem upholds_settle {same : Path → Path → Bool} {unrolled : Nat → Report → Except Fault (List Path) × Report}
    {visits : Nat → Report → List Path}
    (hu : ∀ n report, R report → (∀ q ∈ visits n report, P q) ∧ Within P R (unrolled n report)) :
    ∀ (limit n : Nat) (seen found : List Path) (report : Report), (∀ p ∈ found, P p) → R report →
      (∀ q ∈ settleVisits same unrolled visits limit n seen report, P q) ∧
        Within P R (settle same unrolled limit n seen found report)
  | 0, _, _, _, _, _, hr => ⟨List.forall_mem_nil _, within_error hr⟩
  | limit + 1, n, seen, found, report, hf, hr => by
    obtain ⟨hin, hout⟩ := hu (n + 1) report hr
    rw [settle, settleVisits]
    generalize unrolled (n + 1) report = x at hout
    obtain ⟨x, report₁⟩ := x
    cases x with
    | error f => exact ⟨List.forall_mem_append.2 ⟨hin, List.forall_mem_nil _⟩, within_error hout.2⟩
    | ok paths =>
      have hpaths := hout.1 paths rfl
      have hfound : ∀ p ∈ found ++ paths, P p := List.forall_mem_append.2 ⟨hf, hpaths⟩
      dsimp only
      split
      · exact ⟨List.forall_mem_append.2 ⟨hin, List.forall_mem_append.2 ⟨hpaths, List.forall_mem_nil _⟩⟩,
          within_ok hfound hout.2⟩
      · obtain ⟨hin', hout'⟩ :=
          upholds_settle hu limit (n + 1) (addNew same seen paths) (found ++ paths) report₁ hfound hout.2
        exact ⟨List.forall_mem_append.2 ⟨hin, List.forall_mem_append.2 ⟨hpaths, hin'⟩⟩, hout'⟩

theorem upholds_loopFrom (hP : Path.Inherited P) {enter : Eval Unit} {body orelse : Analysis}
    {inside insideElse : List Path → Report → List Path} (he : enter.Upholds P R) (hb : Upholds P R body inside)
    (ho : Upholds P R orelse insideElse) (limit : Nat) (depth : Int) :
    WalkUpholds P R (loopFrom limit depth enter body orelse)
      (loopStates limit depth enter body inside insideElse) := by
  intro p report hp hr
  have hentry : ∀ q ∈ [entry depth p], P q := List.forall_mem_singleton.2 (hP.scope _ _ (hP.fork p hp))
  have hrounds : ∀ n report, R report →
      (∀ q ∈ unrollVisits (iteration enter body) (iterationStates enter inside) n [entry depth p] report, P q) ∧
        Within P R (rounds depth enter body (entry depth p) n report) := by
    intro n report hr
    obtain ⟨hin, hout⟩ := upholds_unroll (upholds_iteration hP he hb) n [entry depth p] report hentry hr
    refine ⟨hin, ?_⟩
    unfold rounds
    generalize unroll (iteration enter body) n [entry depth p] report = x at hout ⊢
    obtain ⟨x, report₁⟩ := x
    cases x with
    | error f => exact within_error hout.2
    | ok paths => exact within_ok (List.forall_mem_map.2 fun q hq => hP.scope q _ (hout.1 paths rfl q hq)) hout.2
  obtain ⟨hin, hfound⟩ := upholds_settle hrounds limit 0 [] [] report (List.forall_mem_nil _) hr
  have hsearch : Within P R (search limit depth enter body p report) := hfound
  unfold loopFrom loopStates
  generalize search limit depth enter body p report = x at hsearch
  obtain ⟨x, report₁⟩ := x
  cases x with
  | error f => exact ⟨List.forall_mem_append.2 ⟨hin, List.forall_mem_nil _⟩, within_error hsearch.2⟩
  | ok found =>
    obtain ⟨hin', -, hskip, hr₂⟩ := ho [entry depth p] report₁ hentry hsearch.2
    refine ⟨List.forall_mem_append.2 ⟨hin, hin'⟩, ?_⟩
    dsimp only at hskip hr₂ ⊢
    generalize orelse [entry depth p] report₁ = r at hskip hr₂ ⊢
    cases h₂ : r.paths? with
    | error f => exact within_error hr₂
    | ok skipped =>
      refine within_ok (List.forall_mem_append.2 ⟨hsearch.1 found rfl, fun q hq => ?_⟩) hr₂
      obtain ⟨p', hp', rfl | rfl⟩ := mem_leaveLoop hq
      · exact hP.pop p' (hskip skipped h₂ p' hp')
      · exact hP.pop _ (hP.pop p' (hskip skipped h₂ p' hp'))

theorem upholds_loop (hP : Path.Inherited P) {enter : Eval Unit} {body orelse : Analysis}
    {inside insideElse : List Path → Report → List Path} (he : enter.Upholds P R) (hb : Upholds P R body inside)
    (ho : Upholds P R orelse insideElse) (limit : Nat) (depth : Int) :
    Upholds P R (loop limit depth enter body orelse)
      (iterateVisits (loopFrom limit depth enter body orelse)
        (loopStates limit depth enter body inside insideElse)) := by
  intro paths report hp hr
  obtain ⟨hin, hout⟩ := upholds_iterate (upholds_loopFrom hP he hb ho limit depth) paths report hp hr
  refine ⟨hin, ?_⟩
  unfold loop
  generalize iterate (loopFrom limit depth enter body orelse) paths report = x at hout ⊢
  obtain ⟨x, report₁⟩ := x
  cases x with
  | error f => exact ⟨hp, within_error hout.2⟩
  | ok new => exact ⟨hp, within_ok (hout.1 new rfl) hout.2⟩

end Analysis

/-! ## Statements -/

mutual

/-- There is no branch and no loop in the statement. -/
def Stmt.Straight : Stmt → Prop
  | .block body => Stmt.AllStraight body
  | .branch .. => False
  | .loop .. => False
  | .each .. => False
  | _ => True

def Stmt.AllStraight : List Stmt → Prop
  | [] => True
  | s :: rest => s.Straight ∧ Stmt.AllStraight rest

end

/-- The steps of statements keep the properties, at the sites that are allowed; so do the steps into regions, and what
is done to paths there, as far as there are `regions`. -/
structure StepsUphold [SetOrder] (edition : Edition) (P : Path → Prop) (R : Report → Prop) (allowed : Site → Prop)
    (regions : Prop) : Prop where
  evaluates : ∀ {e : Expr}, (∀ site ∈ e.sites, allowed site) → (discard (e.evaluate edition .value)).Upholds P R
  assigns : ∀ {targets : List Target} {value : Expr} {spot : Spot},
    (∀ site ∈ targets.flatMap (·.sites spot) ++ value.sites, allowed site) →
      (discard (Eval.assign edition targets value spot)).Upholds P R
  tests : regions → ∀ {test : Expr}, (∀ site ∈ test.sites, allowed site) → (Eval.enterTest edition test).Upholds P R
  items : regions → ∀ {target : Target} {iter : Expr} {spot : Spot},
    (∀ site ∈ target.sites spot ++ iter.sites, allowed site) → (Eval.enterItem edition target iter spot).Upholds P R
  inherited : regions → Path.Inherited P

namespace StepsUphold

open Analysis

variable {edition : Edition} {P : Path → Prop} {R : Report → Prop} {allowed : Site → Prop} {regions : Prop}

theorem upholds_assign [SetOrder] (h : StepsUphold edition P R allowed regions) (targets : List Target) (value : Expr)
    (spot : Spot) (hs : ∀ site ∈ targets.flatMap (·.sites spot) ++ value.sites, allowed site) :
    Upholds P R (onEach do discard (Eval.assign edition targets value spot)) fun _ _ => [] :=
  upholds_onEach (h.assigns hs)

mutual

/-- The states that a statement reaches have the properties that its steps keep. -/
theorem upholds_analyse [SetOrder] (h : StepsUphold edition P R allowed regions) (limit : Nat) :
    ∀ s : Stmt, (∀ site ∈ s.sites, allowed site) → regions ∨ s.Straight →
      Upholds P R (s.analyse edition limit) (s.reached edition limit)
  | .skip, _, _ => by
    rw [Stmt.reached.eq_def, Stmt.analyse.eq_def]
    exact upholds_idle.states
  | .block body, hs, hr => by
    rw [Stmt.reached.eq_def, Stmt.analyse.eq_def]
    exact (h.upholds_analyseBlock limit body hs hr).states
  | .assign targets value spot, hs, _ => by
    rw [Stmt.reached.eq_def, Stmt.analyse.eq_def]
    rw [Stmt.sites] at hs
    exact (h.upholds_assign targets value spot hs).states
  | .annotated target value spot, hs, _ => by
    rw [Stmt.reached.eq_def, Stmt.analyse.eq_def]
    rw [Stmt.sites] at hs
    have hassign := h.upholds_assign [target] value { line := spot.line } (by rwa [List.flatMap_singleton])
    cases edition
    · exact upholds_idle.states
    · exact hassign.states
  | .augmented target current value spot, hs, _ => by
    rw [Stmt.reached.eq_def, Stmt.analyse.eq_def]
    rw [Stmt.sites, List.append_assoc] at hs
    have hassign := h.upholds_assign [target] (.binary current value) { line := spot.line }
      (by rwa [List.flatMap_singleton, Expr.sites])
    cases edition
    · exact upholds_idle.states
    · exact hassign.states
  | .eval value, hs, _ => by
    rw [Stmt.reached.eq_def, Stmt.analyse.eq_def]
    rw [Stmt.sites] at hs
    exact (upholds_onEach (h.evaluates hs)).states
  | .branch test body orelse, hs, hr => by
    rw [Stmt.reached.eq_def, Stmt.analyse.eq_def]
    simp only [Stmt.sites, List.forall_mem_append] at hs
    obtain hr : regions := hr.resolve_right id
    refine Upholds.states fun paths report hp hreport => ?_
    exact upholds_fork (h.inherited hr) (h.tests hr hs.1.1) (h.upholds_analyse limit body hs.1.2 (.inl hr))
      (h.upholds_analyse limit orelse hs.2 (.inl hr)) paths hp (List.forall_mem_nil _) (List.forall_mem_nil _) hreport
  | .loop test body orelse, hs, hr => by
    rw [Stmt.reached.eq_def, Stmt.analyse.eq_def]
    simp only [Stmt.sites, List.forall_mem_append] at hs
    obtain hr : regions := hr.resolve_right id
    exact (upholds_loop (h.inherited hr) (h.tests hr hs.1.1) (h.upholds_analyse limit body hs.1.2 (.inl hr))
      (h.upholds_analyse limit orelse hs.2 (.inl hr)) limit 0).states
  | .each target iter body orelse spot, hs, hr => by
    rw [Stmt.reached.eq_def, Stmt.analyse.eq_def]
    simp only [Stmt.sites, List.forall_mem_append] at hs
    obtain hr : regions := hr.resolve_right id
    exact (upholds_loop (h.inherited hr) (h.items hr (List.forall_mem_append.2 hs.1.1))
      (h.upholds_analyse limit body hs.1.2 (.inl hr)) (h.upholds_analyse limit orelse hs.2 (.inl hr)) limit 1).states
  | .fails fault, _, _ => by
    rw [Stmt.reached.eq_def, Stmt.analyse.eq_def]
    exact upholds_stop.states

theorem upholds_analyseBlock [SetOrder] (h : StepsUphold edition P R allowed regions) (limit : Nat) :
    ∀ body : List Stmt, (∀ site ∈ Stmt.allSites body, allowed site) → regions ∨ Stmt.AllStraight body →
      Upholds P R (Stmt.analyseBlock edition limit body) (Stmt.reachedBlock edition limit body)
  | [], _, _ => by
    rw [Stmt.reachedBlock.eq_def, Stmt.analyseBlock.eq_def]
    exact upholds_idle
  | s :: rest, hs, hr => by
    rw [Stmt.reachedBlock.eq_def, Stmt.analyseBlock.eq_def]
    simp only [Stmt.allSites, List.forall_mem_append] at hs
    exact (h.upholds_analyse limit s hs.1 (hr.imp id And.left)).andThen
      (h.upholds_analyseBlock limit rest hs.2 (hr.imp id And.right))

end

end StepsUphold

/-- Steps that keep an invariant uphold its two parts. -/
theorem stepsUphold_of_preserves [SetOrder] {edition : Edition} {I : World → Prop} {P : Path → Prop} {R : Report → Prop}
    {allowed : Site → Prop} (hinv : ∀ w, I w ↔ P w.path ∧ R w.report) (hP : Path.Inherited P)
    (hmark : ∀ w x, I w → I { w with path := w.path.markInitialized x })
    (hread : ∀ (e : Expr) (context : Context), (∀ site ∈ e.sites, allowed site) →
      (e.evaluate edition context).Preserves I)
    (hassign : ∀ spot m control name, (Eval.assignName edition spot m control name).Preserves I)
    (hpush : ∀ w m, I w → I { w with path := w.path.push m }) : StepsUphold edition P R allowed True where
  evaluates hs := (hread _ .value hs).discard.upholds hinv
  assigns hs := (Eval.preserves_assign hmark hread hassign hs).discard.upholds hinv
  tests _ _ hs := (Eval.preserves_enterTest hread hpush hs).upholds hinv
  items _ _ _ _ hs := (Eval.preserves_enterItem hmark hread hassign hpush hs).upholds hinv
  inherited _ := hP

namespace Discipline

variable {d : Discipline} {P : Path → Prop} {R : Report → Prop}

/-- An invariant of one run that looks at the path and at the report apart. -/
theorem Holds.upholds (hinv : ∀ w, d.Inv w ↔ P w.path ∧ R w.report) {α : Type} {x : Eval α}
    (h : ∀ w, d.Holds w (fun _ _ => True) x) : x.Upholds P R :=
  fun p r hp hr => (hinv _).1 (h ⟨p, r⟩ ((hinv ⟨p, r⟩).2 ⟨hp, hr⟩)).1

theorem Holds.discard {α : Type} {w : World} {Q : World → α → Prop} {x : Eval α} (h : d.Holds w Q x) :
    d.Holds w (fun _ _ => True) (discard x) :=
  holds_of_runs (Coupling.Runs.discard (σ := (w, w)) h.runs) fun _ _ _ _ => trivial

open Analysis

variable {allowed : Site → Prop}

theorem Writes.stepsUphold [SetOrder] (h : d.Writes allowed) (hinv : ∀ w, d.Inv w ↔ P w.path ∧ R w.report)
    (hP : Path.Inherited P) : StepsUphold d.edition P R allowed True where
  evaluates hs := Holds.upholds hinv fun w => (h.evaluate hs .value w).discard
  assigns hs := Holds.upholds hinv fun w => (h.assigns hs w).discard
  tests _ _ hs := Holds.upholds hinv fun w => h.enterTest hs w
  items _ _ _ _ hs := Holds.upholds hinv fun w => h.enterItem hs w
  inherited _ := hP

/-- The states that a statement reaches keep an invariant that its steps keep. -/
theorem Writes.upholds_analyse [SetOrder] (h : d.Writes allowed) (hinv : ∀ w, d.Inv w ↔ P w.path ∧ R w.report)
    (hP : Path.Inherited P) (limit : Nat) (s : Stmt) (hs : ∀ site ∈ s.sites, allowed site) :
    Upholds P R (s.analyse d.edition limit) (s.reached d.edition limit) :=
  (h.stepsUphold hinv hP).upholds_analyse limit s hs (.inl trivial)

end Discipline

/-! ## The states at which rounds end are reached -/

theorem append_subset_append {α : Type} {a b c d : List α} (h : a ⊆ b) (h' : c ⊆ d) : a ++ c ⊆ b ++ d := by
  intro x hx
  rcases List.mem_append.1 hx with hx | hx
  · exact List.mem_append.2 (.inl (h hx))
  · exact List.mem_append.2 (.inr (h' hx))

namespace Analysis

theorem subset_states (a : Analysis) {inside : List Path → Report → List Path} {paths l : List Path} {r : Report}
    (h : l ⊆ inside paths r) : l ⊆ a.states inside paths r := by
  intro q hq
  simp [states, h hq]

section Subset

variable {inside inside' insideElse insideElse' : List Path → Report → List Path}
  (hin : ∀ paths r, inside paths r ⊆ inside' paths r) (helse : ∀ paths r, insideElse paths r ⊆ insideElse' paths r)

include hin helse in
theorem forkVisits_subset (enter : Eval Unit) (body orelse : Analysis) : ∀ (paths : List Path) (r : Report),
    forkVisits enter body orelse inside insideElse paths r ⊆ forkVisits enter body orelse inside' insideElse' paths r
  | [], _ => List.nil_subset _
  | p :: rest, r => by
    rw [forkVisits, forkVisits]
    generalize enter.run ⟨{ p with scope := p.scope + 1 }, r⟩ = x
    obtain ⟨x, w⟩ := x
    cases x with
    | error f => exact List.nil_subset _
    | ok u =>
      dsimp only
      refine append_subset_append (hin _ _) ?_
      cases (body [w.path.fork] w.report).paths? with
      | error f => exact List.nil_subset _
      | ok yes =>
        refine append_subset_append (helse _ _) ?_
        cases (orelse [w.path.fork] (body [w.path.fork] w.report).report).paths? with
        | error f => exact List.nil_subset _
        | ok no => exact forkVisits_subset enter body orelse rest _

theorem iterateVisits_subset {step : Walk} {visits visits' : Path → Report → List Path}
    (hv : ∀ p r, visits p r ⊆ visits' p r) : ∀ (paths : List Path) (r : Report),
    iterateVisits step visits paths r ⊆ iterateVisits step visits' paths r
  | [], _ => List.nil_subset _
  | p :: rest, r => by
    rw [iterateVisits, iterateVisits]
    refine append_subset_append (hv p r) ?_
    generalize step p r = x
    obtain ⟨x, r'⟩ := x
    cases x with
    | error f => exact List.nil_subset _
    | ok out => exact iterateVisits_subset hv rest r'

theorem unrollVisits_subset {step : Walk} {visits visits' : Path → Report → List Path}
    (hv : ∀ p r, visits p r ⊆ visits' p r) : ∀ (n : Nat) (paths : List Path) (r : Report),
    unrollVisits step visits n paths r ⊆ unrollVisits step visits' n paths r
  | 0, _, _ => List.nil_subset _
  | n + 1, paths, r => by
    rw [unrollVisits, unrollVisits]
    refine append_subset_append (iterateVisits_subset hv paths r) ?_
    generalize iterate step paths r = x
    obtain ⟨x, r'⟩ := x
    cases x with
    | error f => exact List.nil_subset _
    | ok next => exact unrollVisits_subset hv n next r'

theorem settleVisits_subset {same : Path → Path → Bool} {unrolled : Nat → Report → Except Fault (List Path) × Report}
    {visits visits' : Nat → Report → List Path} (hv : ∀ n r, visits n r ⊆ visits' n r) :
    ∀ (limit n : Nat) (seen : List Path) (r : Report),
      settleVisits same unrolled visits limit n seen r ⊆ settleVisits same unrolled visits' limit n seen r
  | 0, _, _, _ => List.nil_subset _
  | limit + 1, n, seen, r => by
    rw [settleVisits, settleVisits]
    refine append_subset_append (hv (n + 1) r) ?_
    generalize unrolled (n + 1) r = x
    obtain ⟨x, r'⟩ := x
    cases x with
    | error f => exact List.nil_subset _
    | ok paths =>
      refine append_subset_append (List.Subset.refl _) ?_
      split
      · exact List.nil_subset _
      · exact settleVisits_subset hv limit (n + 1) _ r'

include hin in
theorem iterationVisits_subset (enter : Eval Unit) (p : Path) (r : Report) :
    iterationVisits enter inside p r ⊆ iterationStates enter inside' p r := by
  unfold iterationStates iterationVisits
  generalize enter.run ⟨p, r⟩ = x
  obtain ⟨x, w⟩ := x
  cases x with
  | error f => exact List.nil_subset _
  | ok u => exact fun q hq => List.mem_cons_of_mem _ (List.mem_cons_of_mem _ (hin _ _ hq))

include hin helse in
theorem loopVisits_subset (limit : Nat) (depth : Int) (enter : Eval Unit) (body : Analysis) (p : Path) (r : Report) :
    loopVisits limit depth enter body inside insideElse p r ⊆
      loopStates limit depth enter body inside' insideElse' p r := by
  unfold loopVisits loopStates searchVisits
  refine append_subset_append (settleVisits_subset (fun n r => ?_) limit 0 [] r) ?_
  · exact unrollVisits_subset (iterationVisits_subset hin enter) n _ r
  · generalize search limit depth enter body p r = x
    obtain ⟨x, r'⟩ := x
    cases x with
    | error f => exact List.nil_subset _
    | ok found => exact helse _ r'

end Subset

end Analysis

open Analysis

mutual

/-- The states at which the rounds of a statement's loops end are among those it reaches. -/
theorem Stmt.visits_subset_reached [SetOrder] (edition : Edition) (limit : Nat) :
    ∀ (s : Stmt) (paths : List Path) (r : Report), s.visits edition limit paths r ⊆ s.reached edition limit paths r
  | .block body, paths, r => by
    rw [Stmt.visits, Stmt.reached]
    exact subset_states _ (Stmt.visitsBlock_subset_reachedBlock edition limit body paths r)
  | .branch test body orelse, paths, r => by
    rw [Stmt.visits, Stmt.reached]
    exact subset_states _ (forkVisits_subset (body.visits_subset_reached edition limit)
      (orelse.visits_subset_reached edition limit) _ _ _ paths r)
  | .loop test body orelse, paths, r => by
    rw [Stmt.visits, Stmt.reached]
    exact subset_states _ (iterateVisits_subset (loopVisits_subset (body.visits_subset_reached edition limit)
      (orelse.visits_subset_reached edition limit) limit 0 _ _) paths r)
  | .each target iter body orelse spot, paths, r => by
    rw [Stmt.visits, Stmt.reached]
    exact subset_states _ (iterateVisits_subset (loopVisits_subset (body.visits_subset_reached edition limit)
      (orelse.visits_subset_reached edition limit) limit 1 _ _) paths r)
  | .skip, _, _ | .assign .., _, _ | .annotated .., _, _ | .augmented .., _, _ | .eval _, _, _ | .fails _, _, _ => by
    rw [Stmt.visits.eq_def]
    exact List.nil_subset _

theorem Stmt.visitsBlock_subset_reachedBlock [SetOrder] (edition : Edition) (limit : Nat) :
    ∀ (body : List Stmt) (paths : List Path) (r : Report),
      Stmt.visitsBlock edition limit body paths r ⊆ Stmt.reachedBlock edition limit body paths r
  | [], _, _ => by
    rw [Stmt.visitsBlock]
    exact List.nil_subset _
  | s :: rest, paths, r => by
    rw [Stmt.visitsBlock, Stmt.reachedBlock]
    refine append_subset_append (s.visits_subset_reached edition limit paths r) ?_
    cases (s.analyse edition limit paths r).paths? with
    | error f => exact List.nil_subset _
    | ok next => exact Stmt.visitsBlock_subset_reachedBlock edition limit rest next _

end

end TaintFlow
