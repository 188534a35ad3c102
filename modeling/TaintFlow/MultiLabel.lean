import TaintFlow.Label
import TaintFlow.Pattern

/-
Multilabels: one label for each vulnerability pattern, by the name of the pattern. An entry
remembers the pattern it belongs to through a reference of type `π`, so that patterns whose sources
grow can be shared; `view` gives the pattern behind a reference. Labellings assign multilabels to
variables.
-/
namespace TaintFlow

/-- An entry of a multilabel: the pattern it was made for, and the flows. -/
structure Tracked (π : Type) where
  pattern : π
  label : Label := {}
deriving DecidableEq

/-- The labels of a value, one for each pattern name. -/
structure MultiLabel (π : Type) where
  entries : Table String (Tracked π) := {}
deriving DecidableEq

namespace MultiLabel

variable {π ρ : Type}

instance : Inhabited (MultiLabel π) := ⟨{}⟩

/-- An empty label for each pattern; of two patterns of one name the last is remembered. -/
def ofPatterns (view : π → Pattern) (patterns : List π) : MultiLabel π :=
  ⟨Table.ofList (patterns.map fun p => ((view p).name, { pattern := p }))⟩

/-- Tracks one more pattern, unless its name is tracked. -/
def track (view : π → Pattern) (m : MultiLabel π) (p : π) : MultiLabel π :=
  if m.entries.contains (view p).name then m
  else ⟨m.entries.insert (view p).name { pattern := p }⟩

/-- A raw flow for each pattern of which the name is a source. -/
def addSource (view : π → Pattern) (m : MultiLabel π) (source : String) (position : Position) :
    MultiLabel π :=
  ⟨m.entries.map fun t =>
    if (view t.pattern).isSource source then { t with label := t.label.addSource source position }
    else t⟩

/-- The flows of each pattern of which the name is a sanitizer pass it. -/
def addSanitizer [SetOrder] (view : π → Pattern) (m : MultiLabel π) (name : String) (line : Int) :
    MultiLabel π :=
  ⟨m.entries.map fun t =>
    if (view t.pattern).isSanitizer name then { t with label := t.label.addSanitizer name line }
    else t⟩

/-- An entry with the flows of another; it keeps its pattern. -/
def join [SetOrder] (t u : Tracked π) : Tracked π := { t with label := t.label.combine u.label }

/-- The labels of both, name by name; an entry keeps the pattern of the left side. -/
def combine [SetOrder] (a b : MultiLabel π) : MultiLabel π := ⟨a.entries.combine join b.entries⟩

def label? (m : MultiLabel π) (name : String) : Option Label := (m.entries.get? name).map (·.label)

/-- Replaces the label of a tracked pattern; an untracked name changes nothing. -/
def setLabel (m : MultiLabel π) (name : String) (label : Label) : MultiLabel π :=
  match m.entries.get? name with
  | some t => ⟨m.entries.insert name { t with label }⟩
  | none => m

/-- Some label has a raw flow. -/
def isTainted (m : MultiLabel π) : Bool := m.entries.values.any (·.label.isTainted)

/-- No name is tracked. -/
def isEmpty (m : MultiLabel π) : Bool := m.entries.isEmpty

/-- Replaces the references to patterns. -/
def mapPatterns (f : π → ρ) (m : MultiLabel π) : MultiLabel ρ :=
  ⟨m.entries.map fun t => { pattern := f t.pattern, label := t.label }⟩

/-- The multilabels track the same names, with the same patterns and the same labels. -/
def same (view : π → Pattern) (view' : ρ → Pattern) (a : MultiLabel π) (b : MultiLabel ρ) : Bool :=
  a.entries.agree (fun t u => (view t.pattern).same (view' u.pattern) && t.label.same u.label)
    b.entries

end MultiLabel

/-- The multilabels of variables. -/
structure Labelling (π : Type) where
  table : Table String (MultiLabel π) := {}
deriving DecidableEq

namespace Labelling

variable {π ρ : Type}

instance : Inhabited (Labelling π) := ⟨{}⟩

def get? (g : Labelling π) (name : String) : Option (MultiLabel π) := g.table.get? name

def update (g : Labelling π) (name : String) (m : MultiLabel π) : Labelling π :=
  ⟨g.table.insert name m⟩

def mapPatterns (f : π → ρ) (g : Labelling π) : Labelling ρ := ⟨g.table.map (·.mapPatterns f)⟩

/-- The multilabels of both, variable by variable. -/
def combine [SetOrder] (a b : Labelling π) : Labelling π := ⟨a.table.combine MultiLabel.combine b.table⟩

def same (view : π → Pattern) (view' : ρ → Pattern) (a : Labelling π) (b : Labelling ρ) : Bool :=
  a.table.agree (MultiLabel.same view view') b.table

end Labelling

end TaintFlow
