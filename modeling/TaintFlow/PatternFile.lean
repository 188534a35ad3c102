import TaintFlow.Document.Access
import TaintFlow.Document.Alike
import TaintFlow.Document.Literal
import TaintFlow.Document.Reader
import TaintFlow.Pattern
import TaintFlow.Position

/-
Pattern files. A file is a list of records, one for each pattern. The lists of a pattern are read as
sets; a text counts as the set of its characters and a record as the set of its keys. In the scoped
edition each sanitizer comes with its mode, as a pair; the plain edition shows them all.
-/
namespace TaintFlow

/-- A pattern as the file has it, with names of any kind. -/
structure PatternEntry where
  name : Document
  sources : List Document
  sinks : List Document
  modes : List (Document × Document)
  listing : Document := .list []
  implicit : Bool
deriving Inhabited

def PatternEntry.sanitizers (e : PatternEntry) : List Document := e.modes.map (·.1)

namespace PatternFile

open Document

/-- The set of the items of a sequence. -/
def set (d : Document) : Except Fault (List Document) := do
  let members ← d.items
  if members.all isKey then
    return members.foldl (fun s d => if s.any (alike d) then s else s ++ [d]) []
  else throw .wrongKind

/-- A table with one more entry. -/
def put (k v : Document) : List (Document × Document) → List (Document × Document)
  | [] => [(k, v)]
  | (k', v') :: rest => if alike k' k then (k', v) :: rest else (k', v') :: put k v rest

/-- The sanitizers of a list of pairs, each with its mode. -/
def modes (d : Document) : Except Fault (List (Document × Document)) := do
  (← d.items).foldlM (fun table pair => do
    let k ← pair.item 0
    let v ← pair.item 1
    if isKey k then return put k v table else throw .wrongKind) []

/-- The answer to whether implicit flows matter: a text that says yes, in any case. -/
def affirmative : Document → Except Fault Bool
  | .text s => .ok (s.toLower = "yes")
  | _ => .error .noFields

def entry (edition : Edition) (d : Document) : Except Fault PatternEntry := do
  let name ← d.get "vulnerability"
  let sources ← set (← d.get "sources")
  let sinks ← set (← d.get "sinks")
  let listing ← d.get "sanitizers"
  match edition with
  | .plain =>
    let sanitizers ← set listing
    let implicit ← affirmative (← d.get "implicit")
    return { name, sources, sinks, modes := sanitizers.map (·, .text "show"), implicit }
  | .scoped =>
    let answer ← d.get "implicit"
    let modes ← modes listing
    let implicit ← affirmative answer
    return { name, sources, sinks, modes, listing, implicit }

/-- The entries of a pattern file. -/
def entries (edition : Edition) (d : Document) : Except Fault (List PatternEntry) := do
  (← d.items).mapM (entry edition)

/-- The entries of the text of a pattern file. -/
def read (edition : Edition) (text : String) : Except Fault (List PatternEntry) :=
  match Document.parse? text with
  | some d => entries edition d
  | none => .error .noDocument

/-- The names in a list of documents. -/
def names (l : List Document) : List String :=
  l.filterMap fun
    | .text s => some s
    | _ => none

end PatternFile

/-- The pattern of an entry. What is no text names nothing in a program. -/
def PatternEntry.pattern (e : PatternEntry) : Pattern where
  name := e.name.display
  sources := PatternFile.names e.sources
  sinks := PatternFile.names e.sinks
  modes := e.modes.filterMap fun
    | (.text s, mode) => some (s, mode)
    | _ => none
  listing := e.listing
  implicit := e.implicit

theorem PatternEntry.sanitizers_pattern (e : PatternEntry) :
    e.pattern.sanitizers = PatternFile.names e.sanitizers := by
  unfold Pattern.sanitizers PatternFile.names PatternEntry.sanitizers PatternEntry.pattern
  rw [List.map_filterMap, List.filterMap_map]
  refine congrArg (List.filterMap · e.modes) (funext fun entry => ?_)
  obtain ⟨k, mode⟩ := entry
  cases k <;> rfl

/-- The patterns of a document. -/
def PatternFile.patterns (edition : Edition) (d : Document) : Except Fault (List Pattern) := do
  return (← entries edition d).map (·.pattern)

end TaintFlow
