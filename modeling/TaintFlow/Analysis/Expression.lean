import TaintFlow.Path
import TaintFlow.Report
import TaintFlow.Syntax

/-
The taint of expressions. Evaluating an expression on a path gives the multilabel of its value. On
the way names that are read before they are assigned become sources, and flows that reach a sink are
reported. What happened before a fault stays.

An expression is evaluated in a context. In the `value` context the taint is that of the value; in
the `condition` context it is that of a test; in the `control` context it is the taint that enclosing
conditions left on the variables that the expression reads.
-/
namespace TaintFlow

/-- What the taint of an expression is asked for. -/
inductive Context where
  | value
  | condition
  | control
  | other
deriving DecidableEq, Repr, Inhabited

/-- A path under analysis and the report it adds to. -/
structure World where
  path : Path
  report : Report
deriving Inhabited

/-- Steps of the analysis on one path. The world is left as it is when a fault stops them. -/
abbrev Eval (α : Type) := ExceptT Fault (StateM World) α

variable [SetOrder]

namespace Eval

variable (edition : Edition)

def path : Eval Path := return (← get).path

def setPath (p : Path) : Eval Unit := modify fun w => { w with path := p }

/-- The multilabel without flows, for the patterns of the path. -/
def clean : Eval Taint := return (← path).clean

/-- The place of a spot on the path. -/
def place (spot : Spot) : Eval Position := return edition.place spot (← path).scope

/-- A raw flow from a name that is read at a spot. -/
def addSource (m : Taint) (name : String) (spot : Spot) : Eval Taint := do
  return (← path).addSource m name (← place edition spot)

/-- A raw flow from a name that is read at a spot, if some pattern has it as a source. -/
def addKnownSource (m : Taint) (name : String) (spot : Spot) : Eval Taint := do
  if (← path).knowsSource name then addSource edition m name spot else return m

/-- Reports the flows of a value that reach a sink. -/
def flag (sink : String) (spot : Spot) (m : Taint) (kind : FlowKind) : Eval Unit := do
  let w ← get
  let found := w.path.detect sink m
  if found.isEmpty then return
  let (report, fault?) :=
    w.report.add edition w.path.view sink (edition.place spot w.path.scope) found kind
  set { w with report }
  match fault? with
  | none => return
  | some fault => throw fault

/-- A name that is read before it is assigned: a source from now on, in a value for every pattern, in
a test for the patterns that mind implicit flows. -/
def readUnassigned (id : String) (spot : Spot) (context : Context) : Eval Taint := do
  let p ← path
  match context with
  | .value => setPath ((p.discover id).markInitialized id)
  | .condition => setPath (p.discoverImplicit id)
  | .control | .other => pure ()
  addSource edition (← clean) id spot

/-- The taint of an assigned variable; a variable without a label gets an empty one. -/
def readAssigned (id : String) (spot : Spot) : Eval Taint := do
  let p ← path
  let m ← addKnownSource edition (← clean) id spot
  match p.labels.get? id with
  | some l => return m.combine l
  | none =>
    setPath { p with labels := p.labels.update id p.clean }
    return m.combine p.clean

def readName (id : String) (spot : Spot) (context : Context) : Eval Taint := do
  let p ← path
  if id ∉ p.initialized then readUnassigned edition id spot context
  else if context = .control then return (p.controlLabels.get? id).getD p.clean
  else readAssigned edition id spot

/-- What an attribute adds to the taint of its base: it may be a source, and it has a label of its
own. -/
def readAttribute (m : Taint) (attr : String) (spot : Spot) : Eval Taint := do
  let p ← path
  let m ← addKnownSource edition m attr spot
  match p.labels.get? attr with
  | some l => return m.combine l
  | none => return m

/-- A value that goes into a part of a container may reach the container as a sink. -/
def flagContainer (container : Expr) (spot : Spot) (m : Taint) : Eval Unit :=
  match container with
  | .name id _ => flag edition id spot m .explicit
  | .missing => throw .noFields
  | _ => return

/-- The receiver of a method is a source if it was not assigned. -/
def readReceiver (receiver : String) (spot : Spot) : Eval Taint := do
  let p ← path
  if receiver ≠ "" && receiver ∉ p.initialized then
    setPath (p.discover receiver)
    let m ← addSource edition (← clean) receiver spot
    setPath ((← path).markInitialized receiver)
    return m
  else clean

/-- What a called function does to the taint of its arguments: it may be a source, a sanitizer and a
sink. Gives the explicit taint and the control taint of the result. -/
def applyFunction (function : String) (spot : Spot) (m control : Taint) : Eval (Taint × Taint) := do
  let p ← path
  let control := control.combine p.currentControl
  let m ← addKnownSource edition m function spot
  let (m, control) := if p.knowsSanitizer function then
      (m.addSanitizer p.view function spot.line, control.addSanitizer p.view function spot.line)
    else (m, control)
  flag edition function spot m .explicit
  flag edition function spot control .implicit
  return (m, control)

end Eval

mutual

/-- The multilabel of an expression in a context. -/
def Expr.evaluate (edition : Edition) : Expr → Context → Eval Taint
  | .name id spot, context => Eval.readName edition id spot context
  | .attribute base attr spot, context => do
    let m := (← Eval.clean).combine (← base.evaluate edition context)
    if context = .value then Eval.readAttribute edition m attr spot else return m
  | .subscript container index spot, context => do
    let m := (← Eval.clean).combine (← container.evaluate edition context)
    let m := m.combine (← index.evaluate edition context)
    if context = .value then Eval.flagContainer edition container spot m
    return m
  | .binary left right, context => do
    let m := (← Eval.clean).combine (← left.evaluate edition context)
    return m.combine (← right.evaluate edition context)
  | .call receiver function args spot, context => do
    let m ← Eval.readReceiver edition receiver spot
    let (m, control) ← Expr.evaluateArgs edition args m (← Eval.clean)
    let (m, control) ← Eval.applyFunction edition function spot m control
    return if context = .control then control else m
  | .compare left rest, context => do
    Expr.evaluateAll edition context rest (← left.evaluate edition context)
  | .unary operand, context => operand.evaluate edition context
  | .boolean values, context => do Expr.evaluateAll edition context values (← Eval.clean)
  | .inert, _ => Eval.clean
  | .missing, _ => Eval.clean
  | .fails fault, _ => throw fault

/-- Adds the taint of arguments, each as a value and then in the control context. -/
def Expr.evaluateArgs (edition : Edition) : List Expr → Taint → Taint → Eval (Taint × Taint)
  | [], m, control => return (m, control)
  | arg :: rest, m, control => do
    let m := m.combine (← arg.evaluate edition .value)
    let control := control.combine (← arg.evaluate edition .control)
    Expr.evaluateArgs edition rest m control

/-- Adds the taint of operands. -/
def Expr.evaluateAll (edition : Edition) (context : Context) : List Expr → Taint → Eval Taint
  | [], m => return m
  | operand :: rest, m => do
    let m := m.combine (← operand.evaluate edition context)
    Expr.evaluateAll edition context rest m

end

end TaintFlow
