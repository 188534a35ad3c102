import TaintFlow.Policy

/-
Execution paths: what the analysis knows at one point of one way through the program. A path has the
explicit labels of the variables, the variables assigned so far, the patterns with the sources found
so far, the labels of the enclosing conditions (the control stack), and the labels that conditions
left on the variables.

A label refers to the pattern it was made for. While a path runs on, that is the pattern of the path
itself, whose sources may still grow; when a path forks, every label of the fork keeps its pattern
as it was at that moment.
-/
namespace TaintFlow

open Listing

/-- The pattern of a label: the path's own, by its place in the list, or one kept from a fork. -/
inductive PatternRef where
  | own (index : Nat)
  | kept (pattern : Pattern)
deriving DecidableEq, Inhabited

/-- Multilabels of a path. -/
abbrev Taint := MultiLabel PatternRef

/-- The knowledge of one way through the program. `control` is the stack of the labels of enclosing
conditions, innermost last. -/
structure Path where
  labels : Labelling PatternRef := {}
  initialized : List String := []
  patterns : List Pattern
  control : List Taint := []
  controlLabels : Labelling PatternRef := {}
  scope : Int := 0
deriving Inhabited

namespace Path

/-- The path at the start of a program. -/
def start (patterns : List Pattern) : Path := { patterns }

/-- The pattern behind a reference. -/
def view (p : Path) : PatternRef → Pattern
  | .own i => p.patterns.getD i default
  | .kept q => q

/-- References to all patterns of the path. -/
def refs (p : Path) : List PatternRef := (List.range p.patterns.length).map .own

/-- No flow, for every pattern of the path. -/
def clean (p : Path) : Taint := MultiLabel.ofPatterns p.view p.refs

/-- A raw flow for each pattern of which the name is a source. -/
def addSource (p : Path) (m : Taint) (source : String) (position : Position) : Taint :=
  m.addSource p.view source position

/-- Some pattern has the name as a source. -/
def knowsSource (p : Path) (name : String) : Bool := p.patterns.any (·.isSource name)

def knowsSanitizer (p : Path) (name : String) : Bool := p.patterns.any (·.isSanitizer name)

def knowsSink (p : Path) (name : String) : Bool := p.patterns.any (·.isSink name)

/-- Makes the name a source of every pattern. -/
def discover (p : Path) (name : String) : Path :=
  { p with patterns := p.patterns.map (·.addSource name) }

/-- Makes the name a source of every pattern that minds implicit flows. -/
def discoverImplicit (p : Path) (name : String) : Path :=
  { p with patterns := p.patterns.map fun q => if q.implicit then q.addSource name else q }

def markInitialized (p : Path) (name : String) : Path :=
  { p with initialized := adjoin p.initialized name }

/-- The flows of a value that reach a sink, for each pattern they violate. -/
def detect (p : Path) (sink : String) (m : Taint) : Taint := Policy.detect p.view p.refs sink m

/-- The labels of all enclosing conditions together. -/
def currentControl [SetOrder] (p : Path) : Taint := p.control.foldl MultiLabel.combine p.clean

def push (p : Path) (m : Taint) : Path := { p with control := p.control ++ [m] }

/-- Drops the innermost condition, if there is one. -/
def pop (p : Path) : Path := { p with control := p.control.dropLast }

/-- A reference that no longer follows the path. -/
def keep (p : Path) (r : PatternRef) : PatternRef := .kept (p.view r)

/-- A copy of the path whose labels keep their patterns as they are now. -/
def fork (p : Path) : Path :=
  { p with
    labels := p.labels.mapPatterns p.keep
    control := p.control.map (·.mapPatterns p.keep)
    controlLabels := p.controlLabels.mapPatterns p.keep }

/-- The stacks have equal multilabels level by level. -/
def sameStack (view view' : PatternRef → Pattern) : List Taint → List Taint → Bool
  | [], [] => true
  | a :: as, b :: bs => a.same view view' b && sameStack view view' as bs
  | _, _ => false

/-- The lists have equal patterns place by place. -/
def samePatterns : List Pattern → List Pattern → Bool
  | [], [] => true
  | p :: ps, q :: qs => p.same q && samePatterns ps qs
  | _, _ => false

/-- The paths know the same: same explicit labels, same variables, same patterns, same conditions.
The labels that conditions left on variables and the nesting level do not count. -/
def same (p q : Path) : Bool :=
  p.labels.same p.view q.view q.labels && sameMembers p.initialized q.initialized &&
    samePatterns p.patterns q.patterns && sameStack p.view q.view p.control q.control

end Path

end TaintFlow
