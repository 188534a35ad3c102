import TaintFlow.Document.Literal
import TaintFlow.Path

/-
Descriptions of labels, patterns and paths for people to read. Names are in order, and what carries
no raw flow is said to be untainted.
-/
namespace TaintFlow

/-- Texts in the order of their characters. -/
def sortTexts (l : List String) : List String := l.mergeSort fun a b => a ≤ b

/-- A set of names. -/
def describeNames (names : List String) : String :=
  if names.isEmpty then "set()"
  else "\x7b" ++ ", ".intercalate ((sortTexts names).map Text.quoted) ++ "\x7d"

namespace Mark

mutual

/-- A document as a fixed sequence of parts. -/
def tuple : Document → String
  | .list [d] => "(" ++ tuple d ++ ",)"
  | .list items => "(" ++ ", ".intercalate (tuples items) ++ ")"
  | d => d.literal

def tuples : List Document → List String
  | [] => []
  | d :: rest => tuple d :: tuples rest

end

def describe : Mark → String
  | .sanitizer name line => "(" ++ Text.quoted name ++ ", " ++ toString line ++ ")"
  | .remark (.text s) => s
  | .remark d => tuple d

end Mark

namespace Label

/-- The way of a flow: raw, or through which sanitizers. -/
def describePath (marks : List Mark) : String :=
  if marks.isEmpty then "RAW" else "Sanitized_by(" ++ ", ".intercalate (marks.map Mark.describe) ++ ")"

def describePosition (edition : Edition) (p : Position) : String :=
  match edition with
  | .plain => s!"line {p.line}"
  | .scoped => s!"line {p.line}, col {p.column}, scope {p.scope}"

/-- The positions of flows, in order and each once. -/
def positions (flows : List Flow) : List Position :=
  (Listing.distinct (flows.map (·.position))).mergeSort Position.before

def describeSource (edition : Edition) (source : String) (flows : List Flow) : List String :=
  (positions flows).map fun p =>
    let paths := (flows.filter (·.position = p)).map fun f => describePath f.marks
    "\tSource='" ++ source ++ "' (" ++ describePosition edition p ++ "): \x7b " ++
      ", ".intercalate paths ++ " \x7d"

def describe (edition : Edition) (l : Label) : String :=
  let parts := (sortTexts l.sources).flatMap fun source =>
    describeSource edition source ((l.flows.get? source).getD [])
  "Label(\n" ++ "\n".intercalate parts ++ "\n\t)"

end Label

namespace MultiLabel

variable {π : Type}

def describe (edition : Edition) (m : MultiLabel π) : String :=
  if !m.isTainted then "MultiLabel(Untainted)"
  else
    let parts := (sortTexts m.entries.keys).filterMap fun name =>
      match m.label? name with
      | some l =>
        if l.flows.isEmpty then none else some ("  [" ++ name ++ "]: " ++ l.describe edition)
      | none => none
    "MultiLabel(\n" ++ "\n".intercalate parts ++ "\n)"

end MultiLabel

namespace Labelling

variable {π : Type}

/-- A description with its further lines indented. -/
def indent (s : String) : String := "\n    ".intercalate (s.splitOn "\n")

def describeVariable (edition : Edition) (name : String) (m : MultiLabel π) : String :=
  "Variable '" ++ name ++ "': " ++
    (if m.isTainted then indent (m.describe edition) else "Untainted")

/-- The description of the variables of a labelling, given one by one. -/
def describeAll (parts : List String) : String :=
  if parts.isEmpty then "MultiLabelling(Empty)"
  else "MultiLabelling(\n  " ++ "\n  ".intercalate parts ++ "\n)"

def describe (edition : Edition) (g : Labelling π) : String :=
  describeAll ((sortTexts g.table.keys).filterMap fun name =>
    (g.get? name).map (describeVariable edition name))

end Labelling

namespace Pattern

def describe (edition : Edition) (p : Pattern) : String :=
  "Pattern(\n  name='" ++ p.name ++ "', \n  sources=" ++ describeNames p.sources ++
    ", \n  sinks=" ++ describeNames p.sinks ++ ", \n  sanitizers=" ++
    (match edition with
      | .plain => describeNames p.sanitizers
      | .scoped => p.listing.literal) ++ "\n)"

end Pattern

/-- The description of a policy, by its patterns. -/
def Policy.describe (edition : Edition) (patterns : List Pattern) : String :=
  "Policy(patterns=[" ++ ", ".intercalate (patterns.map (Pattern.describe edition)) ++ "])"

/-- The description of a path from the descriptions of its parts. -/
def Path.describeParts (policy initialized labels controlLabels : String) : String :=
  "\n-- Policy --\n " ++ policy ++ "\n-- Initialized Vars --\n " ++ initialized ++
    "\n-- Multilabelling --\n " ++ labels ++ "\n-- PC Multilabelling --\n " ++ controlLabels ++ "\n"

def Path.describe (edition : Edition) (p : Path) : String :=
  Path.describeParts (Policy.describe edition p.patterns) (describeNames p.initialized)
    (p.labels.describe edition) (p.controlLabels.describe edition)

end TaintFlow
