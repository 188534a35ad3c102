import TaintFlow.MultiLabel

/-
Policies: the patterns under which a program is analysed. A policy is a list of references to
patterns; it answers which patterns know a name, and which flows of a value must not reach a sink.
-/
namespace TaintFlow

namespace Policy

variable {π : Type} (view : π → Pattern)

/-- The patterns that have the name as a source. -/
def bySource (patterns : List π) (name : String) : List π :=
  patterns.filter fun p => (view p).isSource name

/-- The patterns that have the name as a sanitizer. -/
def bySanitizer (patterns : List π) (name : String) : List π :=
  patterns.filter fun p => (view p).isSanitizer name

/-- The patterns that have the name as a sink. -/
def bySink (patterns : List π) (name : String) : List π :=
  patterns.filter fun p => (view p).isSink name

/-- The flows of a label that come from sources of a pattern. Sanitized flows are among them: a
report says how a flow was sanitized, it does not leave it out. -/
def illegal (p : Pattern) (l : Label) : Label :=
  ⟨l.flows.filter fun source flows => p.isSource source && !flows.isEmpty⟩

/-- The flows that reach a sink against a pattern, if the pattern has the sink and the multilabel
tracks its name. -/
def violation? (m : MultiLabel π) (sink : String) (p : π) : Option Label :=
  if (view p).isSink sink then
    match m.label? (view p).name with
    | some l => if (illegal (view p) l).flows.isEmpty then none else some (illegal (view p) l)
    | none => none
  else none

/-- The flows of a value that reach a sink, for each pattern they violate. -/
def detect (patterns : List π) (sink : String) (m : MultiLabel π) : MultiLabel π :=
  ⟨Table.ofList (patterns.filterMap fun p =>
    (violation? view m sink p).map fun l => ((view p).name, { pattern := p, label := l }))⟩

end Policy

end TaintFlow
