import TaintFlow.Document.Literal
import TaintFlow.Fault
import TaintFlow.MultiLabel
import TaintFlow.Text.Integer
import TaintFlow.Text.Quoted

/-
Reports: the illegal flows found so far. A finding stands for one pattern, source, sink and their
places; it has a number of its own within its pattern, and gathers the ways in which the flow was
seen. The findings are written in the order in which their patterns were first met, then by number.
-/
namespace TaintFlow

open Listing

/-- How a flow reaches a sink: through values or through conditions. -/
inductive FlowKind where
  | explicit
  | implicit
  | other (name : String)
deriving DecidableEq, Repr, Inhabited

namespace FlowKind

def name : FlowKind → String
  | .explicit => "explicit"
  | .implicit => "implicit"
  | .other name => name

def ofName (s : String) : FlowKind :=
  if s = "explicit" then .explicit else if s = "implicit" then .implicit else .other s

end FlowKind

/-- What a finding is about. -/
structure Subject where
  pattern : String
  source : String
  sourceAt : Position
  sink : String
  sinkAt : Position
deriving DecidableEq, Repr, Inhabited

/-- A way in which a flow was seen. -/
structure Sighting where
  kind : FlowKind
  marks : List Mark
deriving DecidableEq, Repr, Inhabited

/-- The findings so far, the number of findings of each pattern, and the patterns in the order in
which they were first met. -/
structure Report where
  findings : Table Subject (String × List Sighting) := {}
  counters : Table String Nat := {}
  discovered : List String := []
deriving Inhabited

namespace Mark

/-- A document read as a step of a flow. -/
def ofDocument : Document → Mark
  | .list [.text name, .int line] => .sanitizer name line
  | d => .remark d

def toDocument : Mark → Document
  | .sanitizer name line => .list [.text name, .int line]
  | .remark d => d

/-- The mark as a list of its parts; a text is the list of its characters. -/
def spread : Mark → Except Fault Mark
  | .sanitizer name line => .ok (.sanitizer name line)
  | .remark (.text s) => .ok (ofDocument (.list (s.toList.map fun c => .text c.toString)))
  | .remark (.list items) => .ok (.remark (.list items))
  | .remark (.record fields) => .ok (ofDocument (.list (fields.map fun f => .text f.1)))
  | .remark _ => .error .wrongKind

/-- The name of the sanitizer; a remark of two parts is named by the first. -/
def sanitizerName : Mark → Except Fault Document
  | .sanitizer name _ => .ok (.text name)
  | .remark (.text s) => pair (s.toList.map fun c => .text c.toString)
  | .remark (.list items) => pair items
  | .remark (.record fields) => pair (fields.map fun f => .text f.1)
  | .remark _ => .error .wrongKind
where
  pair : List Document → Except Fault Document
    | [d, _] => .ok d
    | _ :: _ :: _ => .error (.tooMany 2)
    | parts => .error (.tooFew 2 parts.length)

end Mark

namespace Report

def empty : Report := {}

/-- Notes that a pattern was met. -/
def meet (r : Report) (pattern : String) : Report := { r with discovered := adjoin r.discovered pattern }

/-- The flows of a source by position, in order of first arrival. -/
def groupByPosition (flows : List Flow) : Table Position (List (List Mark)) :=
  flows.foldl (fun t f => t.insert f.position ((t.get? f.position).getD [] ++ [f.marks])) {}

/-- Each path without repeated marks. -/
def thin (paths : List (List Mark)) : List (List Mark) := paths.map distinct

/-- The sightings of paths of one kind. -/
def sightings (kind : FlowKind) (paths : List (List Mark)) : Except Fault (List Sighting) :=
  paths.mapM fun path => do return { kind, marks := ← path.mapM Mark.spread }

/-- The next name for a finding of the pattern: its name and the next number. -/
def number (r : Report) (pattern : String) : String × Report :=
  let n := (r.counters.get? pattern).getD 0 + 1
  (pattern ++ "_" ++ toString n, { r with counters := r.counters.insert pattern n })

/-- Records sightings of a subject: new ones join those of the finding, if there is one. -/
def record (r : Report) (s : Subject) (new : List Sighting) : Report :=
  match r.findings.get? s with
  | some (name, old) => { r with findings := r.findings.insert s (name, union old new) }
  | none =>
    let (name, r) := r.number s.pattern
    { r with findings := r.findings.insert s (name, new) }

/-- Records paths of one kind for a subject. -/
def recordPaths (r : Report) (kind : FlowKind) (s : Subject) (paths : List (List Mark)) :
    Except Fault Report := do
  return r.record s (← sightings kind (thin paths))

/-- Whether a pattern shows the sanitizer of a mark. -/
def showsMark (p : Pattern) (m : Mark) : Except Fault Bool := do
  match ← m.sanitizerName with
  | .text name =>
    match p.shows? name with
    | some b => return b
    | none => throw (.noKey name)
  | .list _ | .record _ => throw .wrongKind
  | d => throw (.noKey d.display)

/-- The marks of a path that a pattern shows; `none` if it shows none of a sanitized path. -/
def shownPath [SetOrder] (p : Pattern) (path : List Mark) : Except Fault (Option (List Mark)) := do
  if path.isEmpty then return some []
  let shown ← path.filterM (showsMark p)
  return if shown.isEmpty then none else some (SetOrder.members shown [])

/-- The paths as the pattern shows them, each once. -/
def shownPaths [SetOrder] (p : Pattern) (paths : List (List Mark)) : Except Fault (List (List Mark)) := do
  return SetOrder.members ((← paths.mapM (shownPath p)).filterMap id) []

/-- Adds the flows of a source that were read at one position. -/
def addGroup [SetOrder] (edition : Edition) (kind : FlowKind) (p : Pattern) (s : Subject)
    (paths : List (List Mark)) (r : Report) : Except Fault Report :=
  match edition with
  | .plain => r.recordPaths kind s paths
  | .scoped => do
    let shown ← shownPaths p paths
    if shown.isEmpty then return r
    (r.meet p.name).recordPaths kind s shown

/-- Runs a step over a list. At the first fault it stops, and keeps what was added before. -/
def each {α : Type} (step : α → Report → Report × Option Fault) :
    List α → Report → Report × Option Fault
  | [], r => (r, none)
  | a :: rest, r => match step a r with
    | (r, none) => each step rest r
    | (r, some f) => (r, some f)

/-- A step that adds all or nothing. -/
def attempt (step : Report → Except Fault Report) (r : Report) : Report × Option Fault :=
  match step r with
  | .ok r' => (r', none)
  | .error f => (r, some f)

/-- Adds the flows that reach a sink against one pattern. A pattern that does not mind implicit flows
takes none. -/
def addTracked [SetOrder] (edition : Edition) (sink : String) (sinkAt : Position) (kind : FlowKind)
    (e : Pattern × Label) (r : Report) : Report × Option Fault :=
  if kind = .implicit && !e.1.implicit then (r, none)
  else
    let r := match edition with
      | .plain => r.meet e.1.name
      | .scoped => r
    each (fun (source, flows) =>
      each (fun (sourceAt, paths) => attempt (addGroup edition kind e.1
        { pattern := e.1.name, source, sourceAt, sink, sinkAt } paths))
        (groupByPosition flows).entries) e.2.flows.entries r

/-- Adds the flows that reach a sink, pattern by pattern. -/
def add [SetOrder] {π : Type} (edition : Edition) (view : π → Pattern) (sink : String) (sinkAt : Position)
    (flows : MultiLabel π) (kind : FlowKind) (r : Report) : Report × Option Fault :=
  each (addTracked edition sink sinkAt kind)
    (flows.entries.values.map fun t => (view t.pattern, t.label)) r

/-- A finding as it is written. -/
structure Entry where
  name : String
  subject : Subject
  flows : List Sighting
deriving DecidableEq, Repr, Inhabited

/-- The place of an item in a list. -/
def place (items : List String) (item : String) : Except Fault Nat :=
  match items.findIdx? (· = item) with
  | some i => .ok i
  | none => .error (.notListed (Text.quoted item))

/-- The rank of an entry: the place of its pattern, then its number, both read off its name. -/
def rank (r : Report) (e : Entry) : Except Fault (Nat × Int) := do
  let parts := e.name.splitOn "_"
  let i ← place r.discovered (parts.getD 0 "")
  let digits := parts.getD 1 ""
  match Text.integer? digits with
  | some n => return (i, n)
  | none => throw (.notDecimal (Text.quoted digits))

/-- The entries of the report in the order in which they are written. -/
def entries (r : Report) : Except Fault (List Entry) := do
  let ranked ← r.findings.entries.mapM fun (s, name, flows) => do
    let e : Entry := { name, subject := s, flows }
    return (← r.rank e, e)
  return (ranked.mergeSort fun a b => a.1.1 < b.1.1 || (a.1.1 = b.1.1 && a.1.2 ≤ b.1.2)).map (·.2)

/-- A name and a position, as they are written. -/
def locate (edition : Edition) (name : String) (p : Position) : Document :=
  .list (.text name :: (p.parts edition).map .int)

def Entry.toDocument (edition : Edition) (e : Entry) : Document :=
  .record [("vulnerability", .text e.name),
    ("source", locate edition e.subject.source e.subject.sourceAt),
    ("sink", locate edition e.subject.sink e.subject.sinkAt),
    ("flows", .list (e.flows.map fun s =>
      .list [.text s.kind.name, .list (s.marks.map Mark.toDocument)]))]

/-- The report as a document. -/
def toDocument (edition : Edition) (r : Report) : Except Fault Document := do
  return .list ((← r.entries).map (Entry.toDocument edition))

end Report

end TaintFlow
