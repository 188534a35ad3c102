import TaintFlow.Analysis.Expression

/-
Assignments. The targets are taken first, then the value is evaluated, and then the names that the
last target stands for get the taint of the value. What conditions left on a name stays on it.
-/
namespace TaintFlow

namespace Eval

variable [SetOrder] (edition : Edition)

/-- Takes a target: marks its variable as assigned. Gives the taint of the place itself and the names
that are assigned. -/
def takeTarget : Target → Eval (Taint × List String)
  | .name id => do
    setPath ((← path).markInitialized id)
    return (← clean, [id])
  | .attribute base attr => do
    setPath ((← path).markInitialized attr)
    return (← clean, base.toList ++ [attr])
  | .subscript container whole => do
    let m := (← clean).combine (← whole.evaluate edition .value)
    match container with
    | some id =>
      setPath ((← path).markInitialized id)
      return (m, [id])
    | none => return (m, [])
  | .fails fault => throw fault

/-- Takes all targets; the names are those of the last. -/
def takeTargets : List Target → Taint → List String → Eval (Taint × List String)
  | [], m, names => return (m, names)
  | t :: rest, m, _ => do
    let (m', names) ← takeTarget edition t
    takeTargets rest (m.combine m') names

/-- Gives a name its taint. The control taint is that of the value, of the enclosing conditions and of
the name itself; a name that is a sink reports both. Returns the control taint. -/
def assignName (spot : Spot) (m control : Taint) (name : String) : Eval Taint := do
  let p ← path
  let before := match p.controlLabels.get? name with
    | some l => l.combine p.currentControl
    | none => p.currentControl
  let control := before.combine control
  flag edition name spot m .explicit
  flag edition name spot control .implicit
  let p ← path
  setPath { p with
    labels := p.labels.update name m
    controlLabels := p.controlLabels.update name control }
  return control

/-- Gives each name its taint; the control taint grows from name to name. -/
def assignNames (spot : Spot) (m : Taint) : List String → Taint → Eval Taint
  | [], control => return control
  | name :: rest, control => do
    assignNames spot m rest (← assignName edition spot m control name)

/-- An assignment. Gives the explicit taint and the control taint that were assigned. -/
def assign (targets : List Target) (value : Expr) (spot : Spot) : Eval (Taint × Taint) := do
  let (m, names) ← takeTargets edition targets (← clean) []
  let m := m.combine (← value.evaluate edition .value)
  let control := (← clean).combine (← value.evaluate edition .control)
  let control ← assignNames edition spot m names control
  return (m, control)

/-- Enters a region under a test: what the test depends on goes on the control stack. -/
def enterTest (test : Expr) : Eval Unit := do
  let condition ← test.evaluate edition .condition
  let control ← test.evaluate edition .control
  let p ← path
  setPath (p.push ((p.currentControl.combine control).combine condition))

/-- Enters an iteration: assigns the next item, and puts what it depends on on the control stack. -/
def enterItem (target : Target) (iter : Expr) (spot : Spot) : Eval Unit := do
  let (m, control) ← assign edition [target] iter spot
  let p ← path
  setPath (p.push ((p.currentControl.combine control).combine m))

end Eval

end TaintFlow
