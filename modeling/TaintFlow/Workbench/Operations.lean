import TaintFlow.Workbench.Copy

/-
What can be done with the things on a bench: labels take sources and sanitizers, multilabels do so for
the patterns that know the name, labellings and paths are combined and copied, policies find illegal
flows, and reports gather them.
-/
namespace TaintFlow.Work

variable [SetOrder]

def bench : Work Workbench := get

/-! ## Labels -/

def combineLabels (i j : Nat) : Work Nat := do
  let b ← bench
  addLabel ((b.label i).combine (b.label j))

/-! ## Multilabels -/

def newMultiLabel (patterns : List Nat) : Work Nat := do
  addMultiLabel (MultiLabel.ofPatterns (← bench).pattern patterns)

/-- Tracks one more pattern, unless its name is tracked. -/
def track (i pattern : Nat) : Work Unit := do
  let b ← bench
  let name := (b.pattern pattern).name
  if (b.slots i).contains name then return
  let label ← addLabel {}
  changeSlots i (·.insert name { pattern, label })

/-- A raw flow for each pattern of which the name is a source. -/
def addSource (i : Nat) (source : String) (position : Position) : Work Unit := do
  let b ← bench
  (b.slots i).values.forM fun s => do
    if (b.pattern s.pattern).isSource source then
      changeLabel s.label (·.addSource source position)

/-- The flows of each pattern of which the name is a sanitizer pass it. -/
def addSanitizer (i : Nat) (name : String) (line : Int) : Work Unit := do
  let b ← bench
  (b.slots i).values.forM fun s => do
    if (b.pattern s.pattern).isSanitizer name then
      changeLabel s.label (·.addSanitizer name line)

def combineMultiLabels (i j : Nat) : Work Nat := do
  let b ← bench
  addMultiLabel ((b.multiLabel i).combine (b.multiLabel j))

/-- Puts a label into the place of a tracked pattern; an untracked name changes nothing. -/
def setLabel (i : Nat) (name : String) (label : Nat) : Work Unit :=
  changeSlots i fun t => match t.get? name with
    | some s => t.insert name { s with label }
    | none => t

/-! ## Labellings -/

/-- The multilabel of a variable in two labellings together; a missing one does not count. -/
def combineEntries : Option Nat → Option Nat → Work (Option Nat)
  | some i, some j => some <$> combineMultiLabels i j
  | some i, none => some <$> Copying.make (Copying.multiLabel i)
  | none, some j => some <$> Copying.make (Copying.multiLabel j)
  | none, none => return none

def combineLabellings (i j : Nat) : Work Nat := do
  let b ← bench
  let names := SetOrder.members (b.bindings i).keys (b.bindings j).keys
  let entries ← names.mapM fun name => do
    let m ← combineEntries ((b.bindings i).get? name).join ((b.bindings j).get? name).join
    return m.map fun m => (name, some m)
  addVariables (.ofList (entries.filterMap id))

/-! ## Policies -/

/-- Makes the name a source of every pattern. -/
def discover (i : Nat) (name : String) : Work Unit := do
  ((← bench).policy i).forM fun p => changePattern p (·.addSource name)

/-- Makes the name a source of every pattern that minds implicit flows. -/
def discoverImplicit (i : Nat) (name : String) : Work Unit := do
  ((← bench).policy i).forM fun p =>
    changePattern p fun q => if q.implicit then q.addSource name else q

/-- The flows of a multilabel that reach a sink, for each pattern they violate. -/
def detect (i : Nat) (sink : String) (m : Nat) : Work Nat := do
  let b ← bench
  addMultiLabel (Policy.detect b.pattern (b.policy i) sink (b.multiLabel m))

/-- A policy with a copy of each pattern. -/
def copyPolicy (i : Nat) : Work Nat := do
  let b ← bench
  addPolicy (← (b.policy i).mapM fun p => addPattern (b.pattern p))

/-! ## Reports -/

/-- Adds the flows of a multilabel that reach a sink. -/
def report (i : Nat) (sink : String) (sinkAt : Position) (m : Nat) (kind : FlowKind) :
    Work Unit := do
  let b ← bench
  let (r, fault?) := (b.report i).add b.edition b.pattern sink sinkAt (b.multiLabel m) kind
  changeReport i fun _ => r
  match fault? with
  | none => return
  | some fault => throw fault

/-- The next name for a finding. -/
def number (i : Nat) (pattern : String) : Work String := do
  let (name, r) := ((← bench).report i).number pattern
  changeReport i fun _ => r
  return name

/-! ## Paths -/

def newPath (labels : Nat) (initialized : List String) (policy : Nat)
    (control : List (Option Nat)) : Work Nat := do
  addPath { labels, initialized, policy, control, controlLabels := ← addVariables {} }

/-- The labels of all enclosing conditions together. -/
def currentControl (i : Nat) : Work Nat := do
  let p := (← bench).path i
  p.control.foldlM (fun m e => match e with
    | some e => combineMultiLabels m e
    | none => throw .noFields) (← newMultiLabel ((← bench).policy p.policy))

def push (i : Nat) (m : Option Nat) : Work Unit :=
  changePath i fun p => { p with control := p.control ++ [m] }

def pop (i : Nat) : Work Unit :=
  changePath i fun p => { p with control := p.control.dropLast }

/-- A copy of a path; its labels, its policy, its conditions and the labels that conditions left are
copied one by one. -/
def copyPath (i : Nat) : Work Nat := do
  let p := (← bench).path i
  let labels ← Copying.make (Copying.labelling p.labels)
  let policy ← Copying.make (Copying.policy p.policy)
  let control ← Copying.make (Copying.control p.control)
  let controlLabels ← Copying.make (Copying.labelling p.controlLabels)
  addPath { p with labels, policy, control, controlLabels }

end TaintFlow.Work
