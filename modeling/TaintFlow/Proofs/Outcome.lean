import TaintFlow.Analysis.Statement

/-
The outcome of an analysis: the paths that go on, or the fault that stopped it, with the report. What a
run leaves of the paths it was given is forgotten, so the outcome of a composed statement is a chain of
outcomes of its parts.
-/
namespace TaintFlow

/-- A computed view of a result shows that there is one. -/
theorem ok_of_toOption_map {ε α β : Type} {x : Except ε α} {f : α → β} {b : β} (h : x.toOption.map f = some b) :
    ∃ a, x = .ok a ∧ f a = b := by
  cases x with
  | error e => cases h
  | ok a => exact ⟨a, rfl, Option.some.inj h⟩

/-- A path after a step, or the fault that stopped it, with the report. -/
def Eval.outcome (step : Eval Unit) (p : Path) (report : Report) : Except Fault Path × Report :=
  ((step.run ⟨p, report⟩).1.map fun _ => (step.run ⟨p, report⟩).2.path, (step.run ⟨p, report⟩).2.report)

theorem Eval.outcome_ok {step : Eval Unit} {p q : Path} {r r' : Report} (h : step.outcome p r = (.ok q, r')) :
    step.run ⟨p, r⟩ = (.ok (), ⟨q, r'⟩) := by
  unfold outcome at h
  generalize step.run ⟨p, r⟩ = x at h ⊢
  obtain ⟨x, w⟩ := x
  cases x with
  | error f => cases h
  | ok u =>
    cases h
    rfl

namespace Analysis

def outcome (a : Analysis) (paths : List Path) (report : Report) : Except Fault (List Path) × Report :=
  ((a paths report).paths?, (a paths report).report)

/-- Goes on with a result, unless there is a fault. -/
def chain {α β : Type} (x : Except Fault α × Report) (next : α → Report → Except Fault β × Report) :
    Except Fault β × Report :=
  match x with
  | (.error fault, report) => (.error fault, report)
  | (.ok a, report) => next a report

theorem outcome_andThen (a b : Analysis) (paths : List Path) (report : Report) :
    outcome (fun paths report => (a paths report).andThen b) paths report =
      chain (a.outcome paths report) b.outcome := by
  unfold outcome
  dsimp only
  generalize a paths report = r
  obtain ⟨given, report', result⟩ := r
  cases result with
  | error fault => rfl
  | ok result => cases result with
    | none => rfl
    | some new =>
      show (Run.paths? ⟨given, _, (b new report').paths?.map some⟩, (b new report').report) =
        ((b new report').paths?, (b new report').report)
      generalize (b new report').paths? = out
      cases out <;> rfl

/-- Simple statements give back the paths they were given, or fault. -/
theorem result_onEach (step : Eval Unit) (paths : List Path) (report : Report) :
    (onEach step paths report).result = .ok none ∨ ∃ fault, (onEach step paths report).result = .error fault := by
  induction paths generalizing report with
  | nil => exact .inl rfl
  | cons p rest ih =>
    rw [onEach]
    generalize step.run ⟨p, report⟩ = x
    obtain ⟨x, w⟩ := x
    cases x with
    | error fault => exact .inr ⟨fault, rfl⟩
    | ok u => exact ih w.report

theorem outcome_onEach_cons (step : Eval Unit) (p : Path) (rest : List Path) (report : Report) :
    outcome (onEach step) (p :: rest) report =
      chain (step.outcome p report) fun q report =>
        chain (outcome (onEach step) rest report) fun others report => (.ok (q :: others), report) := by
  unfold outcome Eval.outcome
  rw [onEach]
  generalize step.run ⟨p, report⟩ = x
  obtain ⟨x, w⟩ := x
  cases x with
  | error fault => rfl
  | ok u =>
    have hrest := result_onEach step rest w.report
    dsimp only
    show _ = chain ((onEach step rest w.report).paths?, (onEach step rest w.report).report) _
    generalize onEach step rest w.report = r at hrest ⊢
    obtain ⟨given, report', result⟩ := r
    obtain h | ⟨fault, h⟩ := hrest <;> dsimp only at h <;> subst h <;> rfl

theorem outcome_fork_cons (enter : Eval Unit) (body orelse : Analysis) (done new : List Path) (p : Path)
    (rest : List Path) (report : Report) :
    outcome (fork enter body orelse done new) (p :: rest) report =
      chain (enter.outcome { p with scope := p.scope + 1 } report) fun q report =>
        chain (body.outcome [q.fork] report) fun yes report =>
          chain (orelse.outcome [q.fork] report) fun no report =>
            outcome (fork enter body orelse (done ++ [q.pop]) ((new ++ yes ++ no).map leave)) rest report := by
  unfold outcome Eval.outcome
  rw [fork]
  generalize enter.run ⟨{ p with scope := p.scope + 1 }, report⟩ = x
  obtain ⟨x, w⟩ := x
  cases x with
  | error fault => rfl
  | ok u =>
    show _ = chain ((body [w.path.fork] w.report).paths?, (body [w.path.fork] w.report).report) _
    dsimp only
    generalize body [w.path.fork] w.report = r
    cases r.paths? with
    | error fault => rfl
    | ok yes =>
      show _ = chain ((orelse [w.path.fork] r.report).paths?, (orelse [w.path.fork] r.report).report) _
      dsimp only
      generalize orelse [w.path.fork] r.report = r'
      cases r'.paths? with
      | error fault => rfl
      | ok no => rfl

theorem iterate_cons (step : Path → Report → Except Fault (List Path) × Report) (p : Path) (rest : List Path)
    (report : Report) :
    iterate step (p :: rest) report =
      chain (step p report) fun first report =>
        chain (iterate step rest report) fun others report => (.ok (first ++ others), report) := by
  rw [iterate]
  generalize step p report = x
  obtain ⟨x, report₁⟩ := x
  cases x with
  | error fault => rfl
  | ok first =>
    dsimp only [chain]
    generalize iterate step rest report₁ = y
    obtain ⟨y, report₂⟩ := y
    cases y <;> rfl

theorem unroll_succ_eq_chain (step : Path → Report → Except Fault (List Path) × Report) (n : Nat) (paths : List Path)
    (report : Report) : unroll step (n + 1) paths report = chain (iterate step paths report) (unroll step n) := by
  rw [unroll]
  generalize iterate step paths report = x
  obtain ⟨x, report₁⟩ := x
  cases x <;> rfl

theorem rounds_eq_chain (depth : Int) (enter : Eval Unit) (body : Analysis) (start : Path) (n : Nat) (report : Report) :
    rounds depth enter body start n report =
      chain (unroll (iteration enter body) n [start] report) fun paths report =>
        (.ok (paths.map fun q => { q with scope := q.scope - depth }), report) := by
  unfold rounds
  generalize unroll (iteration enter body) n [start] report = x
  obtain ⟨x, report₁⟩ := x
  cases x <;> rfl

theorem loopFrom_eq_chain (limit : Nat) (depth : Int) (enter : Eval Unit) (body orelse : Analysis) (p : Path)
    (report : Report) :
    loopFrom limit depth enter body orelse p report =
      chain (search limit depth enter body p report) fun found report =>
        chain (orelse.outcome [entry depth p] report) fun skipped report =>
          (.ok (found ++ leaveLoop skipped), report) := by
  unfold loopFrom
  generalize search limit depth enter body p report = x
  obtain ⟨x, report₁⟩ := x
  cases x with
  | error fault => rfl
  | ok found =>
    dsimp only [chain, outcome]
    generalize orelse [entry depth p] report₁ = r
    cases r.paths? with
    | error fault => rfl
    | ok skipped => rfl

theorem outcome_loop (limit : Nat) (depth : Int) (enter : Eval Unit) (body orelse : Analysis) (paths : List Path)
    (report : Report) :
    outcome (loop limit depth enter body orelse) paths report =
      iterate (loopFrom limit depth enter body orelse) paths report := by
  unfold outcome loop
  generalize iterate (loopFrom limit depth enter body orelse) paths report = x
  obtain ⟨x, report₁⟩ := x
  cases x with
  | error fault => rfl
  | ok new => rfl

end Analysis

end TaintFlow
