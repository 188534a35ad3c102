import TaintFlow.Analysis.Assignment

/-
The analysis of statements on a list of paths. A simple statement moves each path on. A branch forks
each path in two. A loop follows each path through one, two, three, … iterations, until a further
iteration reaches no new state; the paths of all these unrollings go on, and after them the path that
skips the loop. The number of unrollings that are tried is limited.

A run tells what became of the paths it was given, also when a fault stopped it, and which paths go
on: the given ones, or new ones in their place.
-/
namespace TaintFlow

/-- The result of a statement. -/
structure Run where
  /-- The given paths, as the statement leaves them. -/
  given : List Path
  report : Report
  /-- The paths that go on: the given ones (`none`), or new ones. -/
  result : Except Fault (Option (List Path))
deriving Inhabited

/-- The analysis of a part of a program. -/
abbrev Analysis := List Path → Report → Run

namespace Run

/-- The given paths go on as they are. -/
def idle (paths : List Path) (report : Report) : Run := ⟨paths, report, .ok none⟩

def stop (given : List Path) (report : Report) (fault : Fault) : Run := ⟨given, report, .error fault⟩

/-- The paths that go on. -/
def paths? (r : Run) : Except Fault (List Path) :=
  match r.result with
  | .ok none => .ok r.given
  | .ok (some new) => .ok new
  | .error fault => .error fault

/-- Goes on with a further analysis. -/
def andThen (r : Run) (next : Analysis) : Run :=
  match r.result with
  | .error _ => r
  | .ok none => next r.given r.report
  | .ok (some new) =>
    let r' := next new r.report
    { given := r.given, report := r'.report, result := r'.paths?.map some }

end Run

namespace Analysis

/-- Moves each path on, one after the other. -/
def onEach (step : Eval Unit) : Analysis
  | [], report => .idle [] report
  | p :: rest, report =>
    match step.run ⟨p, report⟩ with
    | (.error fault, w) => .stop (w.path :: rest) w.report fault
    | (.ok (), w) =>
      let r := onEach step rest w.report
      { r with given := w.path :: r.given }

/-- Leaves the region of a branch. -/
def leave (p : Path) : Path := { p.pop with scope := p.scope - 1 }

/-- Forks each path over two bodies. `done` are the given paths already seen, `new` the paths that
came out so far. After each given path all of these leave the region. -/
def fork (enter : Eval Unit) (body orelse : Analysis) (done new : List Path) : Analysis
  | [], report => ⟨done, report, .ok (some new)⟩
  | p :: rest, report =>
    match enter.run ⟨{ p with scope := p.scope + 1 }, report⟩ with
    | (.error fault, w) => .stop (done ++ w.path :: rest) w.report fault
    | (.ok (), w) =>
      let r := body [w.path.fork] w.report
      match r.paths? with
      | .error fault => .stop (done ++ w.path :: rest) r.report fault
      | .ok yes =>
        let r := orelse [w.path.fork] r.report
        match r.paths? with
        | .error fault => .stop (done ++ w.path :: rest) r.report fault
        | .ok no =>
          fork enter body orelse (done ++ [w.path.pop]) ((new ++ yes ++ no).map leave) rest r.report

/-- One iteration from one path. A body that does not fork leaves the region of the loop and, a second
time, the region around it. -/
def iteration (enter : Eval Unit) (body : Analysis) (p : Path) (report : Report) :
    Except Fault (List Path) × Report :=
  match enter.run ⟨p, report⟩ with
  | (.error fault, w) => (.error fault, w.report)
  | (.ok (), w) =>
    let r := body [w.path] w.report
    match r.result with
    | .error fault => (.error fault, r.report)
    | .ok none => (.ok (r.given.map (·.pop.pop)), r.report)
    | .ok (some new) => (.ok (new.map (·.pop)), r.report)

/-- One more iteration from each path. -/
def iterate (step : Path → Report → Except Fault (List Path) × Report) :
    List Path → Report → Except Fault (List Path) × Report
  | [], report => (.ok [], report)
  | p :: rest, report =>
    match step p report with
    | (.error fault, report) => (.error fault, report)
    | (.ok first, report) =>
      match iterate step rest report with
      | (.error fault, report) => (.error fault, report)
      | (.ok others, report) => (.ok (first ++ others), report)

/-- A number of iterations. -/
def unroll (step : Path → Report → Except Fault (List Path) × Report) :
    Nat → List Path → Report → Except Fault (List Path) × Report
  | 0, paths, report => (.ok paths, report)
  | n + 1, paths, report =>
    match iterate step paths report with
    | (.error fault, report) => (.error fault, report)
    | (.ok paths, report) => unroll step n paths report

/-- The states seen so far with those of `paths` that are new. -/
def addNew (same : Path → Path → Bool) (seen paths : List Path) : List Path :=
  paths.foldl (fun seen p => if seen.any (same p) then seen else seen ++ [p]) seen

/-- Unrolls `n + 1`, `n + 2`, … iterations until none of the states they reach is new. Collects the
paths of all unrollings. -/
def settle (same : Path → Path → Bool) (unrolled : Nat → Report → Except Fault (List Path) × Report) :
    (limit n : Nat) → (seen found : List Path) → Report → Except Fault (List Path) × Report
  | 0, _, _, _, report => (.error .unsettled, report)
  | limit + 1, n, seen, found, report =>
    match unrolled (n + 1) report with
    | (.error fault, report) => (.error fault, report)
    | (.ok paths, report) =>
      let seen' := addNew same seen paths
      if seen'.length = seen.length then (.ok (found ++ paths), report)
      else settle same unrolled limit (n + 1) seen' (found ++ paths) report

/-- The paths that skip a loop leave its region; the last of them does so twice. -/
def leaveLoop (paths : List Path) : List Path :=
  let paths := paths.map (·.pop)
  paths.dropLast ++ (paths.getLast?.map (·.pop)).toList

/-- The path with which a loop is entered. `depth` is what the loop adds to the nesting level. -/
def entry (depth : Int) (p : Path) : Path := { p.fork with scope := p.scope + depth }

/-- The paths after a number of iterations from an entry, back at the nesting level of the loop. -/
def rounds (depth : Int) (enter : Eval Unit) (body : Analysis) (start : Path) (n : Nat) (report : Report) :
    Except Fault (List Path) × Report :=
  match unroll (iteration enter body) n [start] report with
  | (.error fault, report) => (.error fault, report)
  | (.ok paths, report) => (.ok (paths.map fun q => { q with scope := q.scope - depth }), report)

/-- The search for the paths through a loop from one path. -/
def search (limit : Nat) (depth : Int) (enter : Eval Unit) (body : Analysis) (p : Path) (report : Report) :
    Except Fault (List Path) × Report :=
  settle Path.same (rounds depth enter body (entry depth p)) limit 0 [] [] report

/-- A loop from one path: the paths of the search, and after them the path that skips the loop. -/
def loopFrom (limit : Nat) (depth : Int) (enter : Eval Unit) (body orelse : Analysis) (p : Path)
    (report : Report) : Except Fault (List Path) × Report :=
  match search limit depth enter body p report with
  | (.error fault, report) => (.error fault, report)
  | (.ok found, report) =>
    let r := orelse [entry depth p] report
    match r.paths? with
    | .error fault => (.error fault, r.report)
    | .ok skipped => (.ok (found ++ leaveLoop skipped), r.report)

/-- A loop from each path. -/
def loop (limit : Nat) (depth : Int) (enter : Eval Unit) (body orelse : Analysis) : Analysis :=
  fun paths report =>
    match iterate (loopFrom limit depth enter body orelse) paths report with
    | (.error fault, report) => .stop paths report fault
    | (.ok new, report) => ⟨paths, report, .ok (some new)⟩

end Analysis

variable [SetOrder]

mutual

/-- The analysis of a statement; `limit` bounds the unrollings of each loop. -/
def Stmt.analyse (edition : Edition) (limit : Nat) : Stmt → Analysis
  | .skip => Run.idle
  | .block body => Stmt.analyseBlock edition limit body
  | .assign targets value spot => Analysis.onEach do
    discard (Eval.assign edition targets value spot)
  | .annotated target value spot => match edition with
    | .plain => Run.idle
    | .scoped => Analysis.onEach do
      discard (Eval.assign edition [target] value { line := spot.line })
  | .augmented target current value spot => match edition with
    | .plain => Run.idle
    | .scoped => Analysis.onEach do
      discard (Eval.assign edition [target] (.binary current value) { line := spot.line })
  | .eval value => Analysis.onEach do discard (value.evaluate edition .value)
  | .branch test body orelse =>
    Analysis.fork (Eval.enterTest edition test) (body.analyse edition limit)
      (orelse.analyse edition limit) [] []
  | .loop test body orelse =>
    Analysis.loop limit 0 (Eval.enterTest edition test) (body.analyse edition limit)
      (orelse.analyse edition limit)
  | .each target iter body orelse spot =>
    Analysis.loop limit 1 (Eval.enterItem edition target iter { line := spot.line })
      (body.analyse edition limit) (orelse.analyse edition limit)
  | .fails fault => fun paths report => .stop paths report fault

/-- The analysis of statements one after the other. -/
def Stmt.analyseBlock (edition : Edition) (limit : Nat) : List Stmt → Analysis
  | [] => Run.idle
  | s :: rest => fun paths report =>
    (s.analyse edition limit paths report).andThen (Stmt.analyseBlock edition limit rest)

end

end TaintFlow
