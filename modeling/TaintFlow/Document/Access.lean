import TaintFlow.Document
import TaintFlow.Fault

/-
Taking documents apart: sequences, indices and fields. A list is the sequence of its items, a text of
its characters, a record of its keys. What a document cannot give is a fault.
-/
namespace TaintFlow.Document

/-- A character of a text as a document. -/
def ofChar (c : Char) : Document := .text c.toString

/-- The items of a sequence. -/
def items : Document → Except Fault (List Document)
  | .list items => .ok items
  | .text s => .ok (s.toList.map ofChar)
  | .record fields => .ok (fields.map fun f => .text f.1)
  | _ => .error .wrongKind

/-- The length of a sequence. -/
def size (d : Document) : Except Fault Nat := d.items.map List.length

/-- A list or a record is no member of a set and no key of a table. -/
def isKey : Document → Bool
  | .list _ | .record _ => false
  | _ => true

/-- Zero and what is empty do not count as true. -/
def isTruthy : Document → Bool
  | .null => false
  | .bool b => b
  | .int i => i ≠ 0
  | .float bits => bits <<< 1 ≠ 0
  | .text s => s ≠ ""
  | .list items => !items.isEmpty
  | .record fields => !fields.isEmpty

/-- The value of a field that a record must have. -/
def get (d : Document) (name : String) : Except Fault Document :=
  match d with
  | .record fields => match lookup name fields with
    | some v => .ok v
    | none => .error (.noKey name)
  | _ => .error .wrongKind

/-- The item of a list or the character of a text at an index. -/
def item (d : Document) (index : Nat) : Except Fault Document :=
  match d with
  | .list items => (items[index]?).elim (.error .pastEnd) .ok
  | .text s => (s.toList[index]?).elim (.error .pastEnd) fun c => .ok (ofChar c)
  | .record _ => .error (.noKey (toString index))
  | _ => .error .wrongKind

end TaintFlow.Document
