/-
Places in a program. The two editions of the analyser record a place with different precision: the
plain edition keeps the line alone, the scoped edition keeps line, column and the number of
enclosing regions.
-/
namespace TaintFlow

/-- The two editions of the analyser. The scoped edition records columns and nesting levels, reads
annotated and augmented assignments, and lets a pattern leave sanitizers out of reports. -/
inductive Edition where
  | plain
  | scoped
deriving DecidableEq, Repr, Inhabited

/-- Where a node stands in the text of the program. -/
structure Spot where
  line : Int := 0
  column : Int := 0
deriving DecidableEq, Repr, Inhabited

/-- A recorded place. -/
structure Position where
  line : Int
  column : Int := 0
  scope : Int := 0
deriving DecidableEq, Repr, Inhabited

namespace Position

/-- The parts of a position that an edition shows. -/
def parts (edition : Edition) (p : Position) : List Int :=
  match edition with
  | .plain => [p.line]
  | .scoped => [p.line, p.column, p.scope]

/-- Positions in order of line, then column, then scope. -/
def before (p q : Position) : Bool :=
  p.line < q.line || (p.line = q.line &&
    (p.column < q.column || (p.column = q.column && p.scope ≤ q.scope)))

end Position

/-- The place an edition records for a spot at a nesting level. -/
def Edition.place (edition : Edition) (spot : Spot) (scope : Int) : Position :=
  match edition with
  | .plain => { line := spot.line }
  | .scoped => { line := spot.line, column := spot.column, scope := scope }

end TaintFlow
