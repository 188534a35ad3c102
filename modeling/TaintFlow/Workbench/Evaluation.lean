import TaintFlow.Analysis.Assignment
import TaintFlow.Workbench.Operations

/-
Expressions and assignments on a bench. A path on the bench knows its multilabels by number. So a variable that is read
may hand on the very multilabel that is stored for it, the names of one assignment come to share one, and the sources
and sanitizers that a value meets are put on its multilabel in place.
-/
namespace TaintFlow

namespace Work

variable [SetOrder] (i r : Nat)

/-- A new multilabel without flows, for the patterns of the path. -/
def clean : Work Nat := do
  let b ← bench
  newMultiLabel (b.policy (b.path i).policy)

def place (spot : Spot) : Work Position := do
  let b ← bench
  return b.edition.place spot (b.path i).scope

/-- A raw flow from a name that is read at a spot. -/
def addSourceAt (m : Nat) (name : String) (spot : Spot) : Work Unit := do
  addSource m name (← place i spot)

/-- A raw flow from a name that is read at a spot, if some pattern has it as a source. -/
def addKnownSource (m : Nat) (name : String) (spot : Spot) : Work Unit := do
  let b ← bench
  if (b.policyPatterns (b.path i).policy).any (·.isSource name) then addSourceAt i m name spot

/-- The flows pass a sanitizer, if some pattern has it. -/
def sanitize (m : Nat) (name : String) (line : Int) : Work Unit := do
  let b ← bench
  if (b.policyPatterns (b.path i).policy).any (·.isSanitizer name) then addSanitizer m name line

def markInitialized (name : String) : Work Unit :=
  changePath i fun p => { p with initialized := Listing.adjoin p.initialized name }

/-- The multilabel that is stored for a variable. -/
def stored? (labelling : Nat) (x : String) : Work (Option Nat) := do
  return (((← bench).bindings labelling).get? x).join

/-- Reports the flows of a value that reach a sink. -/
def flag (sink : String) (spot : Spot) (m : Nat) (kind : FlowKind) : Work Unit := do
  let found ← detect ((← bench).path i).policy sink m
  let b ← bench
  if (b.slots found).isEmpty then return
  report r sink (← place i spot) found kind

/-- A name that is read before it is assigned becomes a source of the patterns, as the context says. -/
def notice (id : String) (context : Context) : Work Unit := do
  let policy := ((← bench).path i).policy
  match context with
  | .value => do
    discover policy id
    markInitialized i id
  | .condition => discoverImplicit policy id
  | .control | .other => return

def readUnassigned (id : String) (spot : Spot) (context : Context) : Work Nat := do
  let m ← clean i
  notice i id context
  addSourceAt i m id spot
  return m

/-- The taint of an assigned variable; a variable without a label gets an empty one. -/
def readAssigned (id : String) (spot : Spot) : Work Nat := do
  let m ← clean i
  addKnownSource i m id spot
  let labels := ((← bench).path i).labels
  match ← stored? labels id with
  | some l => combineMultiLabels m l
  | none =>
    let l ← clean i
    changeVariables labels (·.insert id (some l))
    combineMultiLabels m l

/-- In the control context the stored multilabel itself is handed on. -/
def readName (id : String) (spot : Spot) (context : Context) : Work Nat := do
  let p := (← bench).path i
  if id ∉ p.initialized then readUnassigned i id spot context
  else if context = .control then
    match ← stored? p.controlLabels id with
    | some l => return l
    | none => clean i
  else readAssigned i id spot

/-- What an attribute adds to the taint of its base. -/
def readAttribute (m : Nat) (attr : String) (spot : Spot) : Work Nat := do
  addKnownSource i m attr spot
  match ← stored? ((← bench).path i).labels attr with
  | some l => combineMultiLabels m l
  | none => return m

def flagContainer (container : Expr) (spot : Spot) (m : Nat) : Work Unit :=
  match container with
  | .name id _ => flag i r id spot m .explicit
  | .missing => throw .noFields
  | _ => return

/-- The receiver of a method is a source if it was not assigned. -/
def readReceiver (receiver : String) (spot : Spot) : Work Nat := do
  let m ← clean i
  let p := (← bench).path i
  if receiver ≠ "" && receiver ∉ p.initialized then
    discover p.policy receiver
    addSourceAt i m receiver spot
    markInitialized i receiver
  return m

/-- What a called function does to the taint of its arguments. -/
def applyFunction (function : String) (spot : Spot) (m control : Nat) : Work (Nat × Nat) := do
  let control ← combineMultiLabels control (← currentControl i)
  addKnownSource i m function spot
  sanitize i m function spot.line
  sanitize i control function spot.line
  flag i r function spot m .explicit
  flag i r function spot control .implicit
  return (m, control)

mutual

/-- The multilabel of an expression in a context, by its number. -/
def evaluate : Expr → Context → Work Nat
  | .name id spot, context => readName i id spot context
  | .attribute base attr spot, context => do
    let m ← combineMultiLabels (← clean i) (← evaluate base context)
    if context = .value then readAttribute i m attr spot else return m
  | .subscript container index spot, context => do
    let m ← combineMultiLabels (← clean i) (← evaluate container context)
    let m ← combineMultiLabels m (← evaluate index context)
    if context = .value then flagContainer i r container spot m
    return m
  | .binary left right, context => do
    let m ← combineMultiLabels (← clean i) (← evaluate left context)
    combineMultiLabels m (← evaluate right context)
  | .call receiver function args spot, context => do
    let m ← readReceiver i receiver spot
    let (m, control) ← evaluateArgs args m (← clean i)
    let (m, control) ← applyFunction i r function spot m control
    return if context = .control then control else m
  | .compare left rest, context => do evaluateAll context rest (← evaluate left context)
  | .unary operand, context => evaluate operand context
  | .boolean values, context => do evaluateAll context values (← clean i)
  | .inert, _ => clean i
  | .missing, _ => clean i
  | .fails fault, _ => throw fault

def evaluateArgs : List Expr → Nat → Nat → Work (Nat × Nat)
  | [], m, control => return (m, control)
  | arg :: rest, m, control => do
    let m ← combineMultiLabels m (← evaluate arg .value)
    let control ← combineMultiLabels control (← evaluate arg .control)
    evaluateArgs rest m control

def evaluateAll (context : Context) : List Expr → Nat → Work Nat
  | [], m => return m
  | operand :: rest, m => do
    let m ← combineMultiLabels m (← evaluate operand context)
    evaluateAll context rest m

end

/-! ## Assignments -/

def takeTarget : Target → Work (Nat × List String)
  | .name id => do
    markInitialized i id
    return (← clean i, [id])
  | .attribute base attr => do
    markInitialized i attr
    return (← clean i, base.toList ++ [attr])
  | .subscript container whole => do
    let m ← combineMultiLabels (← clean i) (← evaluate i r whole .value)
    match container with
    | some id =>
      markInitialized i id
      return (m, [id])
    | none => return (m, [])
  | .fails fault => throw fault

def takeTargets : List Target → Nat → List String → Work (Nat × List String)
  | [], m, names => return (m, names)
  | t :: rest, m, _ => do
    let (m', names) ← takeTarget i r t
    takeTargets rest (← combineMultiLabels m m') names

/-- What conditions left on a variable, with the conditions around. -/
def before (name : String) : Work Nat := do
  let enclosing ← currentControl i
  match ← stored? ((← bench).path i).controlLabels name with
  | some l => combineMultiLabels l enclosing
  | none => return enclosing

/-- Gives a name its taint: the multilabel itself is stored for it. -/
def assignName (spot : Spot) (m control : Nat) (name : String) : Work Nat := do
  let control ← combineMultiLabels (← before i name) control
  flag i r name spot m .explicit
  flag i r name spot control .implicit
  let p := (← bench).path i
  changeVariables p.labels (·.insert name (some m))
  changeVariables p.controlLabels (·.insert name (some control))
  return control

def assignNames (spot : Spot) (m : Nat) : List String → Nat → Work Nat
  | [], control => return control
  | name :: rest, control => do assignNames spot m rest (← assignName i r spot m control name)

/-- An assignment. -/
def assign (targets : List Target) (value : Expr) (spot : Spot) : Work (Nat × Nat) := do
  let (m, names) ← takeTargets i r targets (← clean i) []
  let m ← combineMultiLabels m (← evaluate i r value .value)
  let control ← combineMultiLabels (← clean i) (← evaluate i r value .control)
  let control ← assignNames i r spot m names control
  return (m, control)

end Work

end TaintFlow
