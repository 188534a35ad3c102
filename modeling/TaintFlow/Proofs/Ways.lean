import TaintFlow.Proofs.Completeness
import TaintFlow.Proofs.SideBySide

/-
A program without loops, one way at a time. A way through a program is the list of what happens on it: the
tests that are made, and the assignments and expressions between them. The ways are listed with the true
branch before the false one, and earlier choices before later ones.

The plain edition follows all ways at once, on paths that fork and share one report. It comes to the same as
following each way alone, from a copy of the first path and with a report of its own: the paths that come
out have, one by one and in order, the explicit taint of the ways, and the explicit flows reported are those
that the ways report.
-/
namespace TaintFlow

/-! ## Ways through a program -/

/-- What happens at one point of a way. -/
inductive Action where
  | test (e : Expr)
  | assign (targets : List Target) (value : Expr) (spot : Spot)
  | eval (value : Expr)
  | stop (fault : Fault)
deriving Inhabited, Repr

/-- An action on one path. A test is evaluated as a condition and for what it depends on. -/
def Action.run [SetOrder] : Action → Eval Unit
  | .test e => do
    let _ ← e.evaluate .plain .condition
    let _ ← e.evaluate .plain .control
    return ()
  | .assign targets value spot => discard (Eval.assign .plain targets value spot)
  | .eval value => discard (value.evaluate .plain .value)
  | .stop fault => throw fault

/-- A way through a program. -/
abbrev Way := List Action

/-- The actions of a way, one after the other. -/
def Way.run [SetOrder] : Way → Eval Unit
  | [] => pure ()
  | a :: rest => do
    a.run
    Way.run rest

mutual

/-- The ways through a statement without loops, as the plain edition reads it. -/
def Stmt.ways : Stmt → List Way
  | .skip => [[]]
  | .block body => Stmt.waysBlock body
  | .assign targets value spot => [[.assign targets value spot]]
  | .annotated _ _ _ => [[]]
  | .augmented _ _ _ _ => [[]]
  | .eval value => [[.eval value]]
  | .branch test body orelse => (body.ways ++ orelse.ways).map (.test test :: ·)
  | .loop _ _ _ => []
  | .each _ _ _ _ _ => []
  | .fails fault => [[.stop fault]]

/-- The ways through statements one after the other. -/
def Stmt.waysBlock : List Stmt → List Way
  | [] => [[]]
  | s :: rest => s.ways.flatMap fun v => (Stmt.waysBlock rest).map (v ++ ·)

end

namespace Way

/-- A way after what has come before it. -/
def after [SetOrder] (v : Way) : Except Fault Unit × World → Except Fault Unit × World
  | (.ok (), w) => (Way.run v).run w
  | (.error fault, w) => (.error fault, w)

theorem run_cons [SetOrder] (a : Action) (v : Way) (w : World) : (Way.run (a :: v)).run w = v.after (a.run.run w) := by
  rw [Way.run, Eval.run_bind]
  obtain ⟨x, w'⟩ := a.run.run w
  cases x <;> rfl

theorem run_append [SetOrder] (v v' : Way) (w : World) : (Way.run (v ++ v')).run w = v'.after ((Way.run v).run w) := by
  induction v generalizing w with
  | nil => rfl
  | cons a v ih =>
    rw [List.cons_append, run_cons, run_cons]
    obtain ⟨x, w'⟩ := a.run.run w
    cases x with
    | error fault => rfl
    | ok u => exact ih w'

/-- The ways from one world, each alone. -/
def outcomes [SetOrder] (ways : List Way) (w : World) : List (Except Fault Unit × World) :=
  ways.map fun v => (Way.run v).run w

theorem outcomes_cons [SetOrder] (a : Action) (ways : List Way) (w : World) :
    outcomes (ways.map (a :: ·)) w = ways.map (·.after (a.run.run w)) := by
  unfold outcomes
  simp only [List.map_map, Function.comp_def, run_cons]

/-- Ways through two parts go on from where the ways through the first part end. -/
theorem outcomes_append [SetOrder] (ways ways' : List Way) (w : World) :
    outcomes (ways.flatMap fun v => ways'.map (v ++ ·)) w =
      (outcomes ways w).flatMap fun x => ways'.map (·.after x) := by
  unfold outcomes
  rw [List.map_flatMap, List.flatMap_map]
  simp only [List.map_map, Function.comp_def, run_append]

end Way

/-! ## The bridge between a fork and a way alone -/

namespace Bridge

/-- Runs of the plain edition under a policy; only explicit taint is compared. -/
def alone (policy : List Pattern) : Bridge where
  left := .sound policy False False
  right := .sound policy False False
  proj := id
  shared := fun _ => True
  full := False
  level := fun _ _ => True
  Sight := List Mark
  sight := id

variable {policy : List Pattern} {p q : Path}

theorem lawful_alone [SetOrder] : (alone policy).Lawful where
  left := Accord.lawful_sound False.elim
  right := Accord.lawful_sound False.elim
  free := Accord.open_sound
  free' := Accord.open_sound
  loose := id
  loose' := id
  place := fun _ _ => rfl
  shift := fun _ _ => trivial

theorem sees_alone {r : Report} {s : Subject} {kind : FlowKind} {marks : List Mark} :
    (alone policy).Sees r s kind marks ↔ r.Recorded s kind marks := exists_eq_right

theorem image_alone {m m' : Taint} : (alone policy).Image m m' ↔ ∀ name s f, m.Has name s f ↔ m'.Has name s f := by
  have hmoved : ∀ {m : Taint} {name s : String} {g : Flow}, (∃ f, m.Has name s f ∧ f.moved id = g) ↔ m.Has name s g :=
    ⟨fun ⟨_, hf, he⟩ => he ▸ hf, fun h => ⟨_, h, rfl⟩⟩
  constructor
  · exact fun h name s f => ((h name trivial s f).trans hmoved).symm
  · exact fun h name _ s g => (h name s g).symm.trans hmoved.symm

theorem twin_self [SetOrder] (hp : (Accord.sound policy False False).Tamed p) : (alone policy).Twin p p := by
  have hrel : ∀ {α : Type} {R : α → α → Prop}, (∀ a, R a a) → ∀ o : Option α, Option.Rel R o o := by
    intro α R hR o
    cases o with
    | none => exact .none
    | some a => exact .some (hR a)
  exact
    { left := hp
      right := hp
      initialized := fun _ => Iff.rfl
      patterns := fun _ _ => List.forall₂_same.2 fun a _ =>
        ⟨rfl, fun _ => rfl, fun _ => rfl, fun _ => rfl, rfl, fun _ _ _ => rfl⟩
      labels := fun x => hrel (fun m => image_alone.2 fun _ _ _ => Iff.rfl) _
      control := False.elim
      controlLabels := fun x => hrel (fun _ => False.elim) _
      scope := trivial }

/-- What is on the control stack, and the nesting level, make no difference. -/
theorem Twin.alter [SetOrder] (h : (alone policy).Twin p q) {control : List Taint} (k : Int)
    (hc : ∀ m ∈ control, (Accord.sound policy False False).Tame m) :
    (alone policy).Twin { p with control, scope := k } q :=
  { h with
    left := { h.left with control := hc }
    control := False.elim
    scope := trivial }

/-- Only the analysis that forks remembers the test. -/
theorem runs_test [SetOrder] (test : Expr) (σ : Worlds) :
    (alone policy).coupling.Runs σ Coupling.Any (Eval.enterTest .plain test) (Action.test test).run := by
  have h : (alone policy).coupling.Writes fun _ => True := lawful_alone.writes _
  unfold Eval.enterTest Action.run
  refine Coupling.Runs.bind (Coupling.runs_evaluate h.toLawful test (fun _ _ => trivial) .condition σ)
    fun τ m m' _ hm => ?_
  refine Coupling.Runs.bind (Coupling.runs_evaluate h.toLawful test (fun _ _ => trivial) .control τ)
    fun υ k k' _ hk hυ => ?_
  have hυ : (alone policy).Twin υ.1.path υ.2.path := hυ
  have hcontrol := ((hυ.left.computed_current lawful_alone.left).tame.combine hk.1).combine hm.1.tame
  have hpush := (hυ.left.push hcontrol).control
  exact .ok trivial (hυ.alter υ.1.path.scope hpush) (added_refl _)

end Bridge

/-! ## Reports of all ways together -/

/-- One of the worlds has recorded the explicit flow. -/
def Sighted (ws : List World) (s : Subject) (marks : List Mark) : Prop := ∃ w ∈ ws, w.report.Recorded s .explicit marks

@[simp]
theorem sighted_nil {s : Subject} {marks : List Mark} : ¬ Sighted [] s marks := by simp [Sighted]

@[simp]
theorem sighted_cons {w : World} {ws : List World} {s : Subject} {marks : List Mark} :
    Sighted (w :: ws) s marks ↔ w.report.Recorded s .explicit marks ∨ Sighted ws s marks := by simp [Sighted]

@[simp]
theorem sighted_append {ws ws' : List World} {s : Subject} {marks : List Mark} :
    Sighted (ws ++ ws') s marks ↔ Sighted ws s marks ∨ Sighted ws' s marks := by
  simp [Sighted, or_and_right, exists_or]

/-- The report shows the explicit flows that the worlds have recorded, and what was on record before. -/
def Shares (base : Subject → List Mark → Prop) (ws : List World) (r : Report) : Prop :=
  ∀ s marks, r.Recorded s .explicit marks ↔ base s marks ∨ Sighted ws s marks

/-- A step on one path and in one of the worlds. -/
theorem Shares.step {policy : List Pattern} {base : Subject → List Mark → Prop} (before : List World)
    {after : List World} {w w' : World} {r r' : Report} (h : Shares base (before ++ w :: after) r)
    (ha : (Bridge.alone policy).Added (r, w.report) (r', w'.report)) : Shares base (before ++ w' :: after) r' := by
  obtain ⟨New, hnew⟩ := ha
  intro s marks
  obtain ⟨hr, hw⟩ := hnew s .explicit marks ⟨trivial, .inl rfl⟩
  have hmoved : (∃ t, New t .explicit marks ∧ t.moved (Bridge.alone policy).proj = s) ↔ New s .explicit marks :=
    ⟨fun ⟨_, ht, he⟩ => he ▸ ht, fun h => ⟨_, h, rfl⟩⟩
  rw [hmoved, Bridge.sees_alone, Bridge.sees_alone] at hw
  rw [Bridge.sees_alone, Bridge.sees_alone] at hr
  dsimp only at hr hw
  rw [hr, h s marks, sighted_append, sighted_append, sighted_cons, sighted_cons, hw]
  grind

/-! ## Analyses that follow ways -/

/-- The path of a fork, beside the world of a way alone. -/
def Beside [SetOrder] (policy : List Pattern) (q : Path) (w : World) : Prop := (Bridge.alone policy).Twin q w.path

/-- The end of a way that no fault has stopped. -/
def World.done (w : World) : Except Fault Unit × World := (.ok (), w)

/-- The analysis comes to what the ways come to, or stops with the fault of one of them. -/
inductive Followed [SetOrder] (policy : List Pattern) (base : Subject → List Mark → Prop)
    (runs : List (Except Fault Unit × World)) : Except Fault (List Path) × Report → Prop where
  | ok {ends : List World} {out : List Path} {r : Report} : runs = ends.map World.done →
    List.Forall₂ (Beside policy) out ends → Shares base ends r → Followed policy base runs (.ok out, r)
  | error {f : Fault} {r : Report} {w : World} : (.error f, w) ∈ runs → Followed policy base runs (.error f, r)

/-- The analysis follows all of the ways. -/
structure Explores [SetOrder] (policy : List Pattern) (a : Analysis) (ways : List Way) : Prop where
  nonempty : ways ≠ []
  follows : ∀ {base starts paths r}, starts ≠ [] → List.Forall₂ (Beside policy) paths starts → Shares base starts r →
    Followed policy base (starts.flatMap (Way.outcomes ways)) (a.outcome paths r)

variable {policy : List Pattern}

theorem Followed.chain [SetOrder] {base base' : Subject → List Mark → Prop}
    {runs runs' : List (Except Fault Unit × World)} {x : Except Fault (List Path) × Report}
    {next : List Path → Report → Except Fault (List Path) × Report} (h : Followed policy base runs x)
    (hok : ∀ {ends out r}, runs = ends.map World.done → List.Forall₂ (Beside policy) out ends → Shares base ends r →
      Followed policy base' runs' (next out r))
    (herror : ∀ {f w}, (.error f, w) ∈ runs → ∃ w', (.error f, w') ∈ runs') :
    Followed policy base' runs' (Analysis.chain x next) := by
  cases h with
  | ok hruns hout hr => exact hok hruns hout hr
  | error hf =>
    obtain ⟨w', hw'⟩ := herror hf
    exact .error hw'

theorem explores_idle [SetOrder] : Explores policy Run.idle [[]] where
  nonempty := by simp
  follows := by
    intro base starts paths r _ hp hr
    refine .ok ?_ hp hr
    exact (List.map_eq_flatMap).symm

theorem explores_fails [SetOrder] (fault : Fault) :
    Explores policy (fun paths report => .stop paths report fault) [[.stop fault]] where
  nonempty := by simp
  follows := by
    intro base starts paths r hne hp hr
    obtain ⟨w, hw⟩ := List.exists_mem_of_ne_nil starts hne
    exact .error (List.mem_flatMap.2 ⟨w, hw, List.mem_singleton_self _⟩)

theorem Explores.andThen [SetOrder] {a a' : Analysis} {ways ways' : List Way} (ha : Explores policy a ways)
    (ha' : Explores policy a' ways') :
    Explores policy (fun paths report => (a paths report).andThen a') (ways.flatMap fun v => ways'.map (v ++ ·)) := by
  have hne : ∃ v', v' ∈ ways' := List.exists_mem_of_ne_nil _ ha'.nonempty
  refine ⟨?_, fun {base starts paths r} hstarts hp hr => ?_⟩
  · obtain ⟨v, hv⟩ := List.exists_mem_of_ne_nil _ ha.nonempty
    obtain ⟨v', hv'⟩ := hne
    exact List.ne_nil_of_mem (List.mem_flatMap.2 ⟨v, hv, List.mem_map_of_mem hv'⟩)
  · rw [Analysis.outcome_andThen]
    rw [funext (Way.outcomes_append ways ways'), ← List.flatMap_assoc]
    refine (ha.follows hstarts hp hr).chain (fun {ends out r} hruns hout hr => ?_) fun {f w} hf => ?_
    · rw [hruns, List.flatMap_map]
      refine ha'.follows ?_ hout hr
      rintro rfl
      obtain ⟨w, hw⟩ := List.exists_mem_of_ne_nil _ hstarts
      exact ha.nonempty (List.map_eq_nil_iff.1 (List.flatMap_eq_nil_iff.1 hruns w hw))
    · obtain ⟨v', hv'⟩ := hne
      exact ⟨w, List.mem_flatMap.2 ⟨_, hf, List.mem_map.2 ⟨v', hv', rfl⟩⟩⟩

/-- A step on one path, beside an action in one world. -/
theorem Beside.step [SetOrder] {step : Eval Unit} {action : Action}
    (h : ∀ σ, (Bridge.alone policy).coupling.Runs σ Coupling.Any step action.run) {q : Path} {w : World}
    (hq : Beside policy q w) (r : Report) :
    (∃ q' r' w', step.outcome q r = (.ok q', r') ∧ action.run.run w = w'.done ∧ Beside policy q' w' ∧
        (Bridge.alone policy).Added (r, w.report) (r', w'.report)) ∨
      ∃ f r' w', step.outcome q r = (.error f, r') ∧ action.run.run w = (.error f, w') := by
  have h := h (⟨q, r⟩, w) hq
  unfold Eval.outcome
  dsimp only at h
  generalize step.run ⟨q, r⟩ = x at h ⊢
  generalize action.run.run w = y at h ⊢
  cases h with
  | ok _ htwin hadded => exact .inl ⟨_, _, _, rfl, rfl, htwin, hadded⟩
  | error _ _ => exact .inr ⟨_, _, _, rfl, rfl⟩

theorem explores_onEach [SetOrder] {step : Eval Unit} {action : Action}
    (h : ∀ σ, (Bridge.alone policy).coupling.Runs σ Coupling.Any step action.run) :
    Explores policy (Analysis.onEach step) [[action]] := by
  have hone : Way.outcomes [[action]] = fun w => [action.run.run w] := by
    funext w
    rw [← List.map_singleton (f := (action :: ·)), Way.outcomes_cons]
    obtain ⟨x, w'⟩ := action.run.run w
    cases x <;> rfl
  refine ⟨by simp, fun {base starts paths r} hne hp hr => ?_⟩
  clear hne
  rw [hone, ← List.map_eq_flatMap]
  induction hp generalizing base r with
  | nil => exact .ok rfl .nil hr
  | @cons q w paths starts hq _ ih =>
    rw [Analysis.outcome_onEach_cons, List.map_cons]
    rcases hq.step h r with ⟨q', r', w', ho, hw, hq', hadded⟩ | ⟨f, r', w', ho, hw⟩
    · rw [ho, hw]
      -- what this path has reported is on record when the others go on
      have hr' : Shares (fun s marks => base s marks ∨ w'.report.Recorded s .explicit marks) starts r' := by
        intro s marks
        rw [Shares.step [] hr hadded s marks]
        simp [or_assoc]
      refine (ih hr').chain (fun {ends out r} hruns hout hr => ?_) fun {f w} hf => ⟨w, List.mem_cons_of_mem _ hf⟩
      rw [hruns, ← List.map_cons]
      refine .ok rfl (.cons hq' hout) fun s marks => ?_
      rw [hr s marks, sighted_cons, or_assoc]
    · rw [ho, hw]
      exact .error (List.mem_cons_self ..)

theorem Beside.fork [SetOrder] {q : Path} {w : World} (h : Beside policy q w) : Beside policy q.fork w :=
  Bridge.Twin.fork_left Bridge.lawful_alone h

theorem Beside.leave [SetOrder] {q : Path} {w : World} (h : Beside policy q w) : Beside policy (Analysis.leave q) w :=
  Bridge.Twin.alter h (q.scope - 1) (Bridge.Twin.left h).pop.control

theorem Beside.enter [SetOrder] {q : Path} {w : World} (h : Beside policy q w) :
    Beside policy { q with scope := q.scope + 1 } w :=
  Bridge.Twin.alter h (q.scope + 1) (Bridge.Twin.left h).control

section Fork

variable [SetOrder] {body orelse : Analysis} {ways ways' : List Way} (hbody : Explores policy body ways)
  (horelse : Explores policy orelse ways')

include hbody horelse

/-- Both branches from one path, and what comes after them. -/
theorem Explores.branches {base base' : Subject → List Mark → Prop} {runs : List (Except Fault Unit × World)} {q : Path}
    {w : World} {r : Report} {next : List Path → List Path → Report → Except Fault (List Path) × Report}
    (hq : Beside policy q w) (hr : Shares base [w] r)
    (hok : ∀ {ends yes no r}, Way.outcomes (ways ++ ways') w = ends.map World.done →
      List.Forall₂ (Beside policy) (yes ++ no) ends → Shares base ends r → Followed policy base' runs (next yes no r))
    (herror : ∀ {f w'}, (.error f, w') ∈ Way.outcomes (ways ++ ways') w → ∃ w', (.error f, w') ∈ runs) :
    Followed policy base' runs (Analysis.chain (body.outcome [q.fork] r) fun yes r =>
      Analysis.chain (orelse.outcome [q.fork] r) fun no r => next yes no r) := by
  have happend : Way.outcomes (ways ++ ways') w = Way.outcomes ways w ++ Way.outcomes ways' w := List.map_append
  have hfork : List.Forall₂ (Beside policy) [q.fork] [w] := .cons hq.fork .nil
  rw [happend] at hok herror
  -- what the path has reported so far stays on record while the branches report more
  have hr : Shares (fun s marks => base s marks ∨ Sighted [w] s marks) [w] r := fun s marks => by
    rw [hr s marks, or_assoc, or_self]
  have hyes := hbody.follows (List.cons_ne_nil _ _) hfork hr
  rw [List.flatMap_singleton] at hyes
  refine hyes.chain (fun {ends yes r} hends hyes hr => ?_) fun hf => herror (List.mem_append_left _ hf)
  have hr : Shares (fun s marks => base s marks ∨ Sighted ends s marks) [w] r := fun s marks => by
    rw [hr s marks, or_assoc, or_assoc, or_comm (a := Sighted [w] s marks)]
  have hno := horelse.follows (List.cons_ne_nil _ _) hfork hr
  rw [List.flatMap_singleton] at hno
  refine hno.chain (fun {ends' no r} hends' hno hr => ?_) fun hf => herror (List.mem_append_right _ hf)
  refine hok (by rw [hends, hends', List.map_append]) (List.rel_append hyes hno) fun s marks => ?_
  rw [hr s marks, sighted_append, or_assoc]

variable {enter : Eval Unit} {action : Action}
  (h : ∀ σ, (Bridge.alone policy).coupling.Runs σ Coupling.Any enter action.run)

include h

/-- A fork from each of the given paths. `news` are the worlds beside the paths that came out so far. -/
theorem Explores.followed_fork {paths : List Path} {starts : List World}
    (hp : List.Forall₂ (Beside policy) paths starts) :
    ∀ {base done new news r}, List.Forall₂ (Beside policy) new news → Shares base (news ++ starts) r →
      Followed policy base (news.map World.done ++ starts.flatMap (Way.outcomes ((ways ++ ways').map (action :: ·))))
        ((Analysis.fork enter body orelse done new).outcome paths r) := by
  induction hp with
  | nil =>
    intro base done new news r hnew hr
    rw [List.append_nil] at hr
    exact .ok (List.append_nil _) hnew hr
  | @cons q w paths starts hq _ ih =>
    intro base done new news r hnew hr
    rw [Analysis.outcome_fork_cons, List.flatMap_cons, Way.outcomes_cons]
    rcases hq.enter.step h r with ⟨q', r', w', ho, hw, hq', hadded⟩ | ⟨f, r', w', ho, hw⟩
    · rw [ho, hw]
      -- to the branches of this path, what all the others have reported is just on record
      have hr := hr.step news hadded
      have hone : Shares (fun s marks => base s marks ∨ Sighted (news ++ starts) s marks) [w'] r' := by
        intro s marks
        rw [hr s marks]
        simp only [sighted_append, sighted_cons, sighted_nil, or_false]
        grind
      refine hbody.branches horelse hq' hone (fun {ends yes no r} hends hout hr => ?_) fun {f w} hf =>
        ⟨w, List.mem_append_right _ (List.mem_append_left _ hf)⟩
      change Followed policy base (news.map World.done ++ (Way.outcomes (ways ++ ways') w' ++ _)) _
      rw [hends, ← List.append_assoc, ← List.map_append, List.append_assoc]
      refine ih (List.forall₂_map_left_iff.2 ((List.rel_append hnew hout).imp fun _ _ h => h.leave)) fun s marks => ?_
      rw [hr s marks]
      simp only [sighted_append]
      grind
    · rw [ho, hw]
      obtain ⟨v, hv⟩ := List.exists_mem_of_ne_nil _ hbody.nonempty
      exact .error (List.mem_append_right _ (List.mem_append_left _
        (List.mem_map.2 ⟨v, List.mem_append_left _ hv, rfl⟩)))

theorem explores_fork : Explores policy (Analysis.fork enter body orelse [] [])
    ((ways ++ ways').map (action :: ·)) := by
  refine ⟨?_, fun {base starts paths r} _ hp hr => hbody.followed_fork horelse h hp .nil hr⟩
  rw [List.map_append]
  exact List.append_ne_nil_of_left_ne_nil (mt List.map_eq_nil_iff.1 hbody.nonempty) _

end Fork

mutual

/-- The analysis of a statement without loops follows its ways. -/
theorem explores_analyse [SetOrder] (limit : Nat) : ∀ s : Stmt, s.LoopFree →
    Explores policy (s.analyse .plain limit) s.ways
  | .skip, _ => by
    rw [Stmt.analyse.eq_def, Stmt.ways.eq_def]
    exact explores_idle
  | .block body, hl => by
    rw [Stmt.analyse.eq_def, Stmt.ways.eq_def]
    exact explores_analyseBlock limit body hl
  | .assign targets value spot, _ => by
    rw [Stmt.analyse.eq_def, Stmt.ways.eq_def]
    exact explores_onEach fun σ =>
      (Coupling.runs_assign (Bridge.lawful_alone.writes fun _ => True) (fun _ _ => trivial) σ).discard
  | .annotated _ _ _, _ => by
    rw [Stmt.analyse.eq_def, Stmt.ways.eq_def]
    exact explores_idle
  | .augmented _ _ _ _, _ => by
    rw [Stmt.analyse.eq_def, Stmt.ways.eq_def]
    exact explores_idle
  | .eval value, _ => by
    rw [Stmt.analyse.eq_def, Stmt.ways.eq_def]
    exact explores_onEach fun σ => (Coupling.runs_evaluate (Bridge.lawful_alone.writes fun _ => True).toLawful value
      (fun _ _ => trivial) .value σ).discard
  | .branch test body orelse, hl => by
    rw [Stmt.analyse.eq_def, Stmt.ways.eq_def]
    exact explores_fork (explores_analyse limit body hl.1) (explores_analyse limit orelse hl.2) (Bridge.runs_test test)
  | .fails fault, _ => by
    rw [Stmt.analyse.eq_def, Stmt.ways.eq_def]
    exact explores_fails fault

theorem explores_analyseBlock [SetOrder] (limit : Nat) : ∀ body : List Stmt, Stmt.AllLoopFree body →
    Explores policy (Stmt.analyseBlock .plain limit body) (Stmt.waysBlock body)
  | [], _ => by
    rw [Stmt.analyseBlock.eq_def, Stmt.waysBlock.eq_def]
    exact explores_idle
  | s :: rest, hl => by
    rw [Stmt.analyseBlock.eq_def, Stmt.waysBlock.eq_def]
    exact (explores_analyse limit s hl.1).andThen (explores_analyseBlock limit rest hl.2)

end

/-! ## Whole programs -/

/-- The paths have the same explicit taint: the same variables are assigned, the patterns have found the same
sources, and the same flows are on each variable. -/
structure Path.SameTaint (p q : Path) : Prop where
  initialized : ∀ x, x ∈ p.initialized ↔ x ∈ q.initialized
  patterns : List.Forall₂ Pattern.Alike p.patterns q.patterns
  labels : ∀ x, Option.Rel (fun m m' => ∀ name s f, m.Has name s f ↔ m'.Has name s f) (p.labels.get? x)
    (q.labels.get? x)

/-- Lists of patterns that differ in their sources only are related if the patterns of each name are. -/
theorem Pattern.forall₂_of_named {R : Pattern → Pattern → Prop} : ∀ {l m : List Pattern}, l.map bare = m.map bare →
    (∀ name, List.Forall₂ R (l.filter (·.name = name)) (m.filter (·.name = name))) →
    List.Forall₂ (fun a b => a.bare = b.bare ∧ R a b) l m
  | [], [], _, _ => .nil
  | a :: l, b :: m, hbare, h => by
    obtain ⟨hab, hbare⟩ := List.cons.inj hbare
    have hname := name_of_bare hab
    have hR : R a b ∧ List.Forall₂ R (l.filter (·.name = a.name)) (m.filter (·.name = a.name)) := by
      have ha := h a.name
      rw [List.filter_cons_of_pos (by simp), List.filter_cons_of_pos (by simp [hname])] at ha
      exact List.forall₂_cons.1 ha
    refine .cons ⟨hab, hR.1⟩ (forall₂_of_named hbare fun name => ?_)
    by_cases hn : a.name = name
    · exact hn ▸ hR.2
    · have ha := h name
      rwa [List.filter_cons_of_neg (by simpa using hn), List.filter_cons_of_neg (by simpa [← hname] using hn)] at ha

theorem Bridge.Twin.sameTaint [SetOrder] {p q : Path} (h : (Bridge.alone policy).Twin p q) : p.SameTaint q where
  initialized := h.initialized
  patterns := by
    refine (Pattern.forall₂_of_named (h.left.patterns.trans h.right.patterns.symm) fun name =>
      h.patterns name trivial).imp fun a b hab => ⟨hab.1, fun s => ?_⟩
    rw [← decide_eq_decide]
    exact hab.2.sources s
  labels := fun x => rel_imp Bridge.image_alone.1 (h.labels x)

/-- From a sound path, the analysis of a program without loops comes to an end if each of its ways alone does;
then the paths that come out have, in order, the explicit taint of the ways, and the explicit flows that are
reported are those that the ways report. Otherwise it stops with the fault of one of the ways. -/
theorem analysis_decomposes_into_ways [SetOrder] {p : Path} (hp : p.Sound) {program : Stmt} (hl : program.LoopFree)
    (limit : Nat) (r : Report) :
    let run := program.analyse .plain limit [p] r
    let alone := fun way : Way => (Way.run way).run ⟨p.fork, {}⟩
    (∃ out ends, run.paths? = .ok out ∧ program.ways.map alone = ends.map World.done ∧
      List.Forall₂ (fun q w => q.SameTaint w.path) out ends ∧
      ∀ s marks, run.report.Recorded s .explicit marks ↔
        r.Recorded s .explicit marks ∨ ∃ way ∈ program.ways, (alone way).2.report.Recorded s .explicit marks) ∨
    ∃ f, run.paths? = .error f ∧ ∃ way ∈ program.ways, (alone way).1 = .error f := by
  intro run alone
  have hstart : Beside p.patterns p ⟨p.fork, {}⟩ :=
    (Bridge.twin_self (Accord.tamed_of_sound hp)).fork_right Bridge.lawful_alone
  have hr : Shares (fun s marks => r.Recorded s .explicit marks) [⟨p.fork, {}⟩] r := by
    intro s marks
    rw [sighted_cons, or_iff_right (Report.not_recorded_empty s .explicit marks), or_iff_left sighted_nil]
  have hrun := (explores_analyse limit program hl).follows (List.cons_ne_nil _ _) (.cons hstart .nil) hr
  rw [List.flatMap_singleton] at hrun
  change Followed _ _ _ (run.paths?, run.report) at hrun
  generalize run.paths? = x at hrun ⊢
  generalize run.report = r' at hrun ⊢
  cases hrun with
  | @ok ends out _ hruns hout hr =>
    refine .inl ⟨out, ends, rfl, hruns, hout.imp fun _ _ h => Bridge.Twin.sameTaint h, fun s marks => ?_⟩
    rw [hr s marks]
    refine or_congr_right ?_
    calc Sighted ends s marks ↔ ∃ x ∈ ends.map World.done, x.2.report.Recorded s .explicit marks := by
          simp [Sighted, World.done]
      _ ↔ ∃ x ∈ program.ways.map alone, x.2.report.Recorded s .explicit marks := by rw [← hruns]; rfl
      _ ↔ ∃ way ∈ program.ways, (alone way).2.report.Recorded s .explicit marks := by simp
  | error hf =>
    obtain ⟨way, hway, he⟩ := List.mem_map.1 hf
    exact .inr ⟨_, rfl, way, hway, congrArg Prod.fst he⟩

/-- In `x = get(y)`, `if c: x = esc(x)`, `if x: sink(x)` there are four ways; two of them report the flow from `y`
sanitized, two report it raw. -/
theorem analysis_of_two_branches_decomposes :
    let a : Pattern :=
      { name := "A", sources := ["get"], sinks := ["sink"], modes := [("esc", .text "show")], implicit := true }
    let p := Path.start [a]
    let read : Action := .assign [.name "x"] (.call "" "get" [.name "y" { line := 1 }] { line := 1 }) { line := 1 }
    let clean : Action := .assign [.name "x"] (.call "" "esc" [.name "x" { line := 3 }] { line := 3 }) { line := 3 }
    let use : Action := .eval (.call "" "sink" [.name "x" { line := 5 }] { line := 5 })
    let c : Expr := .name "c" { line := 2 }
    let x : Expr := .name "x" { line := 4 }
    let program : Stmt := .block [
      .assign [.name "x"] (.call "" "get" [.name "y" { line := 1 }] { line := 1 }) { line := 1 },
      .branch c (.block [.assign [.name "x"] (.call "" "esc" [.name "x" { line := 3 }] { line := 3 }) { line := 3 }])
        (.block []),
      .branch x (.block [.eval (.call "" "sink" [.name "x" { line := 5 }] { line := 5 })]) (.block [])]
    let run := program.analyse .plain 0 [p] {}
    let alone := fun way : Way => (Way.run way).run ⟨p.fork, {}⟩
    let ways : List Way := [[read, .test c, clean, .test x, use], [read, .test c, clean, .test x],
      [read, .test c, .test x, use], [read, .test c, .test x]]
    program.ways = ways ∧
      (∃ out ends, run.paths? = .ok out ∧ ways.map alone = ends.map World.done ∧
        List.Forall₂ (fun q w => q.SameTaint w.path) out ends ∧
        ∀ s marks, run.report.Recorded s .explicit marks ↔
          ({} : Report).Recorded s .explicit marks ∨ ∃ way ∈ ways, (alone way).2.report.Recorded s .explicit marks) ∧
      ∀ marks ∈ [[], [Mark.sanitizer "esc" 3]],
        run.report.Recorded ⟨"A", "y", { line := 1 }, "sink", { line := 5 }⟩ .explicit marks := by
  intro a p read clean use c x program run alone ways
  have hloops : program.LoopFree := ⟨trivial, ⟨⟨trivial, trivial⟩, trivial⟩, ⟨⟨trivial, trivial⟩, trivial⟩, trivial⟩
  refine ⟨rfl, (analysis_decomposes_into_ways (Path.sound_start [a]) hloops 0 {}).resolve_right ?_, ?_⟩
  · rintro ⟨f, hf, -⟩
    have hok : (program.analyse .plain 0 [Path.start [a]] {}).paths?.isOk = true := by decide +kernel
    rw [hf] at hok
    cases hok
  · intro marks hmarks
    rw [Report.recorded_iff]
    revert marks
    decide +kernel

end TaintFlow
