import TaintFlow.Description
import TaintFlow.Document.Alike
import TaintFlow.Report

/-
A workbench: patterns, labels, multilabels, labellings, policies, reports and paths that may share
their parts. A multilabel on the bench names its patterns and labels by number, a labelling its
multilabels, a policy its patterns; what is done to a shared part shows wherever it is used.

`Workbench.multiLabel` and its kin take a thing off the bench as a value of its own, whose patterns
are still named by number; the operations work on such values and put the results back.
-/
namespace TaintFlow

/-- An entry of a multilabel on the bench. -/
structure Slot where
  pattern : Nat
  label : Nat
deriving DecidableEq, Repr, Inhabited

/-- A path on the bench. -/
structure BenchPath where
  labels : Nat
  initialized : List String
  policy : Nat
  control : List (Option Nat)
  controlLabels : Nat
  scope : Int := 0
deriving DecidableEq, Repr, Inhabited

structure Workbench where
  edition : Edition
  patterns : List Pattern := []
  labels : List Label := []
  multiLabels : List (Table String Slot) := []
  labellings : List (Table String (Option Nat)) := []
  policies : List (List Nat) := []
  reports : List Report := []
  paths : List BenchPath := []

/-- A thing at hand: a thing on the bench, by its number, or a plain value. -/
inductive Item where
  | pattern (i : Nat)
  | label (i : Nat)
  | multiLabel (i : Nat)
  | labelling (i : Nat)
  | policy (i : Nat)
  | report (i : Nat)
  | path (i : Nat)
  | plain (d : Document)
  | names (l : List String)
  | group (l : List Item)
deriving Inhabited

namespace Workbench

variable (b : Workbench)

def pattern (i : Nat) : Pattern := b.patterns.getD i default

def label (i : Nat) : Label := b.labels.getD i default

def slots (i : Nat) : Table String Slot := b.multiLabels.getD i default

def bindings (i : Nat) : Table String (Option Nat) := b.labellings.getD i default

def policy (i : Nat) : List Nat := b.policies.getD i default

def report (i : Nat) : Report := b.reports.getD i default

def path (i : Nat) : BenchPath := b.paths.getD i default

/-- A multilabel as a value. -/
def multiLabel (i : Nat) : MultiLabel Nat :=
  ⟨(b.slots i).map fun s => { pattern := s.pattern, label := b.label s.label }⟩

/-- The patterns of a policy. -/
def policyPatterns (i : Nat) : List Pattern := (b.policy i).map b.pattern

/-! ## Comparing -/

def samePattern (i j : Nat) : Bool := (b.pattern i).same (b.pattern j)

def sameMultiLabel (i j : Nat) : Bool :=
  (b.multiLabel i).same b.pattern b.pattern (b.multiLabel j)

/-- Two multilabels are the same, or both are missing. -/
def sameEntry : Option Nat → Option Nat → Bool
  | some i, some j => b.sameMultiLabel i j
  | none, none => true
  | _, _ => false

def sameLabelling (i j : Nat) : Bool := (b.bindings i).agree b.sameEntry (b.bindings j)

def samePolicy (i j : Nat) : Bool := Path.samePatterns (b.policyPatterns i) (b.policyPatterns j)

/-- Two lists are the same place by place. -/
def pairwise {α : Type} (same : α → α → Bool) : List α → List α → Bool
  | [], [] => true
  | x :: xs, y :: ys => same x y && pairwise same xs ys
  | _, _ => false

def samePath (i j : Nat) : Bool :=
  let p := b.path i
  let q := b.path j
  b.sameLabelling p.labels q.labels && Listing.sameMembers p.initialized q.initialized &&
    b.samePolicy p.policy q.policy && pairwise b.sameEntry p.control q.control

mutual

/-- Two things have the same content. A report is the same as itself only. -/
def same : Item → Item → Bool
  | .pattern i, .pattern j => b.samePattern i j
  | .label i, .label j => (b.label i).same (b.label j)
  | .multiLabel i, .multiLabel j => b.sameMultiLabel i j
  | .labelling i, .labelling j => b.sameLabelling i j
  | .policy i, .policy j => b.samePolicy i j
  | .report i, .report j => i = j
  | .path i, .path j => b.samePath i j
  | .plain d, .plain e => d.alike e
  | .names l, .names m => Listing.sameMembers l m
  | .group l, .group m => sameAll l m
  | _, _ => false

def sameAll : List Item → List Item → Bool
  | [], [] => true
  | x :: xs, y :: ys => same x y && sameAll xs ys
  | _, _ => false

end

/-! ## Describing -/

/-- The description of a labelling; a variable without a multilabel has none. -/
def describeLabelling (i : Nat) : Except Fault String := do
  let bindings := b.bindings i
  let parts ← (sortTexts bindings.keys).mapM fun name =>
    match bindings.get? name with
    | some (some m) => .ok (Labelling.describeVariable b.edition name (b.multiLabel m))
    | _ => .error .noFields
  return Labelling.describeAll parts

def describePath (i : Nat) : Except Fault String := do
  let p := b.path i
  return Path.describeParts (Policy.describe b.edition (b.policyPatterns p.policy))
    (describeNames p.initialized) (← b.describeLabelling p.labels)
    (← b.describeLabelling p.controlLabels)

/-- The description of a thing. -/
def describe : Item → Except Fault String
  | .pattern i => .ok ((b.pattern i).describe b.edition)
  | .label i => .ok ((b.label i).describe b.edition)
  | .multiLabel i => .ok ((b.multiLabel i).describe b.edition)
  | .labelling i => b.describeLabelling i
  | .policy i => .ok (Policy.describe b.edition (b.policyPatterns i))
  | .path i => b.describePath i
  | .plain d => .ok d.literal
  | .names l => .ok (describeNames l)
  | .report _ | .group _ => .error .wrongKind

end Workbench

/-- Two things at hand are one thing. -/
def Item.isSame : Item → Item → Bool
  | .pattern i, .pattern j | .label i, .label j | .multiLabel i, .multiLabel j
  | .labelling i, .labelling j | .policy i, .policy j | .report i, .report j
  | .path i, .path j => i = j
  | .plain d, .plain e => d = e
  | _, _ => false

/-- Work on a bench. What was done before a fault stays. -/
abbrev Work (α : Type) := ExceptT Fault (StateM Workbench) α

namespace Work

/-! ## Putting things on the bench -/

def addPattern (p : Pattern) : Work Nat := do
  let b ← get
  set { b with patterns := b.patterns ++ [p] }
  return b.patterns.length

def addLabel (l : Label) : Work Nat := do
  let b ← get
  set { b with labels := b.labels ++ [l] }
  return b.labels.length

def addSlots (t : Table String Slot) : Work Nat := do
  let b ← get
  set { b with multiLabels := b.multiLabels ++ [t] }
  return b.multiLabels.length

def addVariables (t : Table String (Option Nat)) : Work Nat := do
  let b ← get
  set { b with labellings := b.labellings ++ [t] }
  return b.labellings.length

def addPolicy (l : List Nat) : Work Nat := do
  let b ← get
  set { b with policies := b.policies ++ [l] }
  return b.policies.length

def addReport (r : Report) : Work Nat := do
  let b ← get
  set { b with reports := b.reports ++ [r] }
  return b.reports.length

def addPath (p : BenchPath) : Work Nat := do
  let b ← get
  set { b with paths := b.paths ++ [p] }
  return b.paths.length

/-- Puts a multilabel on the bench, with labels of its own. -/
def addMultiLabel (m : MultiLabel Nat) : Work Nat := do
  let entries ← m.entries.entries.mapM fun (name, t) => do
    return (name, { pattern := t.pattern, label := ← addLabel t.label })
  addSlots (.ofList entries)

/-! ## Changing things on the bench -/

def changePattern (i : Nat) (f : Pattern → Pattern) : Work Unit :=
  modify fun b => { b with patterns := b.patterns.set i (f (b.pattern i)) }

def changeLabel (i : Nat) (f : Label → Label) : Work Unit :=
  modify fun b => { b with labels := b.labels.set i (f (b.label i)) }

def changeSlots (i : Nat) (f : Table String Slot → Table String Slot) : Work Unit :=
  modify fun b => { b with multiLabels := b.multiLabels.set i (f (b.slots i)) }

def changeVariables (i : Nat) (f : Table String (Option Nat) → Table String (Option Nat)) :
    Work Unit :=
  modify fun b => { b with labellings := b.labellings.set i (f (b.bindings i)) }

def changeReport (i : Nat) (f : Report → Report) : Work Unit :=
  modify fun b => { b with reports := b.reports.set i (f (b.report i)) }

def changePath (i : Nat) (f : BenchPath → BenchPath) : Work Unit :=
  modify fun b => { b with paths := b.paths.set i (f (b.path i)) }

end Work

end TaintFlow
