import TaintFlow.Workbench

/-
Copies of things on the bench. A copy shares nothing with the thing it was made from, and keeps the
sharing inside: a part that is met twice in one copy is copied once.
-/
namespace TaintFlow

/-- The parts copied so far, each with its copy. -/
structure Copied where
  patterns : Table Nat Nat := {}
  labels : Table Nat Nat := {}
  multiLabels : Table Nat Nat := {}

/-- Work that makes one copy. -/
abbrev Copying (α : Type) := StateT Copied (ExceptT Fault (StateM Workbench)) α

namespace Copying

def bench : Copying Workbench := fun c => do return (← get, c)

def pattern (i : Nat) : Copying Nat := do
  match (← get).patterns.get? i with
  | some j => return j
  | none =>
    let j ← (Work.addPattern ((← bench).pattern i) : Work Nat)
    modify fun c => { c with patterns := c.patterns.insert i j }
    return j

def label (i : Nat) : Copying Nat := do
  match (← get).labels.get? i with
  | some j => return j
  | none =>
    let j ← (Work.addLabel ((← bench).label i) : Work Nat)
    modify fun c => { c with labels := c.labels.insert i j }
    return j

def multiLabel (i : Nat) : Copying Nat := do
  match (← get).multiLabels.get? i with
  | some j => return j
  | none =>
    let entries ← ((← bench).slots i).entries.mapM fun (name, s) => do
      return (name, { pattern := ← pattern s.pattern, label := ← label s.label })
    let j ← (Work.addSlots (.ofList entries) : Work Nat)
    modify fun c => { c with multiLabels := c.multiLabels.insert i j }
    return j

def entry : Option Nat → Copying (Option Nat)
  | some i => some <$> multiLabel i
  | none => return none

def labelling (i : Nat) : Copying Nat := do
  let entries ← ((← bench).bindings i).entries.mapM fun (name, m) => do return (name, ← entry m)
  (Work.addVariables (.ofList entries) : Work Nat)

def policy (i : Nat) : Copying Nat := do
  (Work.addPolicy (← ((← bench).policy i).mapM pattern) : Work Nat)

def control (l : List (Option Nat)) : Copying (List (Option Nat)) := l.mapM entry

/-- Makes one copy. -/
def make {α : Type} (c : Copying α) : Work α := return (← c.run {}).1

end Copying

end TaintFlow
