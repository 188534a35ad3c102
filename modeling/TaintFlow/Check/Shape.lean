import TaintFlow.Document.Access
import TaintFlow.Document.Alike
import TaintFlow.Document.Literal
import TaintFlow.Listing
import TaintFlow.Position

/-
The shape of pattern files and of reports. A pattern has a name, three lists of names and an answer on
implicit flows; an entry of a report has a name, a source, a sink and the flows between them. What a
document lacks is said in the words of the fault.
-/
namespace TaintFlow.Check

open Document

def isText : Document → Bool
  | .text _ => true
  | _ => false

def isList : Document → Bool
  | .list _ => true
  | _ => false

/-- A truth value counts as an integer. -/
def isInteger : Document → Bool
  | .int _ | .bool _ => true
  | _ => false

/-- The items of a sequence are texts. -/
def allTexts (d : Document) : Except Fault Bool := return (← d.items).all isText

/-- The keys of a record. -/
def keysOf : Document → Except Fault (List String)
  | .record fields => .ok (fields.map (·.1))
  | _ => .error .noFields

/-- The record has exactly the keys of a sequence of keys without repetitions. -/
def hasKeys (keys record : Document) : Except Fault Bool := do
  let wanted ← keys.items
  let found ← keysOf record
  if wanted.length ≠ found.length then return false
  if !wanted.all isKey then throw .wrongKind
  return wanted.all (fun k => found.any (fun f => alike k (.text f))) &&
    found.all fun f => wanted.any (alike (.text f))

/-- A name with its place: a text and a line, in the scoped edition also with a column. -/
def isInstruction (edition : Edition) : Document → Bool
  | .list [name, line] => isText name && isInteger line
  | .list [name, line, column] =>
    edition = .scoped && isText name && isInteger line && isInteger column
  | _ => false

/-- A list of sanitizers. -/
def isSanitizers (edition : Edition) : Document → Bool
  | .list items => items.all (isInstruction edition)
  | _ => false

/-- A tag and a list of sanitizers. -/
def isFlow (edition : Edition) : Document → Bool
  | .list [tag, sanitizers] =>
    (tag = .text "implicit" || tag = .text "explicit") && isSanitizers edition sanitizers
  | _ => false

/-- A sequence of flows that is not empty. -/
def isFlows (edition : Edition) (d : Document) : Except Fault Bool := do
  let items ← d.items
  return !items.isEmpty && items.all (isFlow edition)

/-- The keys of a record, as they are shown. -/
def showKeys (keys : List String) : String :=
  "dict_keys(" ++ (Document.list (keys.map .text)).literal ++ ")"

/-- A requirement, with the words for a document that does not meet it. -/
def require (holds : Bool) (message : String) : Except Fault Unit :=
  if holds then .ok () else .error (.unmet message)

def wrongType (field : String) (d : Document) : String :=
  field ++ " attribute is of wrong type: " ++ d.display

/-- Requires the keys of a record. -/
def requireKeys (what : String) (keys : List String) (d : Document) : Except Fault Unit := do
  let ok ← hasKeys (.list (keys.map .text)) d
  require ok (what ++ " keys are incorrect: " ++ showKeys (← keysOf d))

/-- Requires a field to be a list of texts. -/
def requireTexts (d : Document) (name : String) : Except Fault Unit := do
  let v ← d.get name
  require (isList v) (wrongType name v)
  require (← allTexts v) (wrongType name v)

/-- A pattern of a pattern file. -/
def isPattern (d : Document) : Except Fault Bool := do
  requireKeys "pattern" ["vulnerability", "sources", "sanitizers", "sinks", "implicit"] d
  let name ← d.get "vulnerability"
  require (isText name) (wrongType "vulnerability" name)
  requireTexts d "sources"
  requireTexts d "sanitizers"
  requireTexts d "sinks"
  let implicit ← d.get "implicit"
  require (isText implicit) (wrongType "implicit" implicit)
  require (implicit = .text "yes" || implicit = .text "no") (wrongType "implicit" implicit)
  return true

/-- An entry of a report. -/
def isEntry (edition : Edition) (d : Document) : Except Fault Bool := do
  requireKeys "vulnerability" ["vulnerability", "source", "sink", "flows"] d
  let name ← d.get "vulnerability"
  require (isText name) (wrongType "vulnerability" name)
  let source ← d.get "source"
  require (isInstruction edition source) (wrongType "source" source)
  let sink ← d.get "sink"
  require (isInstruction edition sink) (wrongType "sink" sink)
  let flows ← d.get "flows"
  require (isList flows) (wrongType "flows" flows)
  require (← isFlows edition flows) (wrongType "flows" flows)
  return true

end TaintFlow.Check
