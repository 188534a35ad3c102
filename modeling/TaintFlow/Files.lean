import TaintFlow.Document.Reader
import TaintFlow.Fault

/-
Named texts, as the programs of this library read them. A name is a path of parts between slashes;
empty parts and dots do not count.
-/
namespace TaintFlow

/-- A set of named texts. -/
structure Files where
  entries : List (String × String) := []
deriving Repr, Inhabited

namespace Files

/-- The parts of a path that count. -/
def parts (name : String) : List String := (name.splitOn "/").filter fun p => p ≠ "" && p ≠ "."

/-- A path without the parts that do not count. -/
def normal (name : String) : String := "/".intercalate (parts name)

/-- The text of a file. -/
def text (files : Files) (name : String) : Except Fault String :=
  match files.entries.lookup (normal name) with
  | some s => .ok s
  | none => .error .noFile

/-- The document in a file. -/
def document (files : Files) (name : String) : Except Fault Document := do
  match Document.parse? (← files.text name) with
  | some d => return d
  | none => throw .noDocument

/-- The last part of a path. -/
def fileName (name : String) : String := ((parts name).getLast?).getD ""

/-- What stands in front of the last dot of a text; a dot at either end does not count. -/
def stem (name : String) : String :=
  let cs := (fileName name).toList
  let tail := (cs.reverse.takeWhile (· ≠ '.')).length
  if tail = 0 || cs.length ≤ tail + 1 then fileName name
  else String.ofList (cs.take (cs.length - tail - 1))

/-- The path of the folder of a file. -/
def folder (name : String) : String := "/".intercalate (parts name).dropLast

end Files

end TaintFlow
