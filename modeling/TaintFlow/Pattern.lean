import TaintFlow.Document
import TaintFlow.Listing

/-
Vulnerability patterns: what counts as a source, a sanitizer and a sink of one kind of
vulnerability, and whether implicit flows matter to it. The sources of a pattern grow while a
program is analysed; everything else is fixed.
-/
namespace TaintFlow

open Listing

/-- A vulnerability pattern. `modes` gives the sanitizers, each with the mode that says whether reports
of the scoped edition show it; `listing` is the list of sanitizers as the pattern file has it. -/
structure Pattern where
  name : String
  sources : List String
  sinks : List String
  modes : List (String × Document)
  listing : Document := .list []
  implicit : Bool
deriving DecidableEq, Repr, Inhabited

namespace Pattern

def isSource (p : Pattern) (name : String) : Bool := name ∈ p.sources

def isSink (p : Pattern) (name : String) : Bool := name ∈ p.sinks

def sanitizers (p : Pattern) : List String := p.modes.map (·.1)

def isSanitizer (p : Pattern) (name : String) : Bool := name ∈ p.sanitizers

/-- Whether reports show a sanitizer; `none` if the pattern does not know it. -/
def shows? (p : Pattern) (name : String) : Option Bool :=
  (Document.lookup name p.modes).map (· = .text "show")

/-- The pattern with one more source. -/
def addSource (p : Pattern) (name : String) : Pattern :=
  { p with sources := adjoin p.sources name }

/-- The patterns ask for the same things: same name, same sets, same answer on implicit flows. -/
def same (p q : Pattern) : Bool :=
  p.name = q.name && sameMembers p.sources q.sources && sameMembers p.sinks q.sinks &&
    sameMembers p.sanitizers q.sanitizers && p.implicit = q.implicit

/-- A pattern has a mode for each of its sanitizers. -/
theorem isSome_shows? {p : Pattern} {name : String} (h : name ∈ p.sanitizers) : (p.shows? name).isSome = true := by
  rw [shows?, Option.isSome_map]
  exact Document.isSome_lookup h

theorem isSource_addSource (p : Pattern) (name other : String) :
    (p.addSource name).isSource other = true ↔ p.isSource other = true ∨ other = name := by
  simp [isSource, addSource, mem_adjoin]

end Pattern

end TaintFlow
