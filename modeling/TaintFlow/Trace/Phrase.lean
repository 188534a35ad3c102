import TaintFlow.Document.Access
import TaintFlow.Document.Literal

/-
The text of an expression in a trace. Names, constants, attributes, subscripts, binary operations,
calls and comparisons are written out; any other node is written as its type, and what is no node as
a question mark. A call is written with its positional arguments only.

A document is put into words once, from the words of its parts.
-/
namespace TaintFlow

namespace Phrase

/-- The signs of operators. -/
def signs : List (String × String) :=
  [("Add", "+"), ("Sub", "-"), ("Mult", "*"), ("Div", "/"), ("Mod", "%"), ("Pow", "**"),
    ("FloorDiv", "//"), ("Eq", "=="), ("NotEq", "!="), ("Lt", "<"), ("LtE", "<="), ("Gt", ">"),
    ("GtE", ">="), ("Is", "is"), ("IsNot", "is not"), ("In", "in"), ("NotIn", "not in")]

/-- The sign of an operator; an unknown operator stands for itself. -/
def sign (operator : String) : String := ((signs.find? (·.1 = operator)).map (·.2)).getD operator

/-- The sign of an operator node by its type. -/
def signOf (type : Document) : Except Fault Document :=
  match type with
  | .text s => .ok (.text (sign s))
  | d => if d.isKey then .ok d else .error .wrongKind

end Phrase

/-- A document in words, and as a sequence of things in words. -/
structure Phrase where
  words : Except Fault Document := .ok (.text "?")
  parts : Except Fault (List (Except Fault Document)) := .error .wrongKind

namespace Phrase

def unknown : Except Fault Document := .ok (.text "?")

def ofKeys (count : Nat) : Phrase := { parts := .ok (List.replicate count unknown) }

/-- The words of a field. -/
def child (kids : List (String × Phrase)) (name : String) : Except Fault Document :=
  ((kids.find? (·.1 = name)).map (·.2.words)).getD unknown

/-- The words of the items of a field. -/
def children (kids : List (String × Phrase)) (name : String) :
    Except Fault (List (Except Fault Document)) :=
  ((kids.find? (·.1 = name)).map (·.2.parts)).getD (.ok [])

/-- Texts with a separator between them. -/
def joinTexts (separator : String) (parts : List Document) : Except Fault String := do
  let texts ← parts.mapM fun
    | .text s => (.ok s : Except Fault String)
    | _ => .error .wrongKind
  return separator.intercalate texts

/-- The operators and operands of a comparison in pairs, as many as there are of both. -/
def comparisons : List Document → List (Except Fault Document) → Except Fault (List Document)
  | op :: ops, operand :: operands => do
    if !op.isRecord then throw .noFields
    let sign ← signOf ((op.field? "ast_type").getD .null)
    let operand ← operand
    return .text (sign.display ++ " " ++ operand.display) :: (← comparisons ops operands)
  | _, _ => .ok []

def ofNode (type : Document) (fields : List (String × Document)) (kids : List (String × Phrase)) :
    Except Fault Document :=
  match type with
  | .text "Constant" => .ok (.text ((Document.lookup "value" fields).getD .null).literal)
  | .text "Name" => .ok ((Document.lookup "id" fields).getD (.text "?"))
  | .text "Attribute" => do
    let base ← child kids "value"
    let attr := (Document.lookup "attr" fields).getD (.text "?")
    return .text (base.display ++ "." ++ attr.display)
  | .text "Subscript" => do
    let base ← child kids "value"
    let index ← child kids "slice"
    return .text (base.display ++ "[" ++ index.display ++ "]")
  | .text "BinOp" => do
    let left ← child kids "left"
    let right ← child kids "right"
    let op := (Document.lookup "op" fields).getD (.record [])
    if !op.isRecord then throw .noFields
    let sign ← signOf ((op.field? "ast_type").getD (.text "?"))
    return .text (left.display ++ " " ++ sign.display ++ " " ++ right.display)
  | .text "Call" => do
    let function ← child kids "func"
    let args ← (← children kids "args").mapM id
    return .text (function.display ++ "(" ++ (← joinTexts ", " args) ++ ")")
  | .text "Compare" => do
    let left ← child kids "left"
    let ops ← ((Document.lookup "ops" fields).getD (.list [])).items
    let rest ← comparisons ops (← children kids "comparators")
    return .text (← joinTexts " " (left :: rest))
  | type => .ok (if type.isTruthy then type else .text "?")

def ofRecord (fields : List (String × Document)) (kids : List (String × Phrase)) : Phrase :=
  { ofKeys fields.length with
    words := ofNode ((Document.lookup "ast_type" fields).getD .null) fields kids }

mutual

def ofDocument : Document → Phrase
  | .text s => ofKeys s.length
  | .list items => { parts := .ok (ofItems items) }
  | .record fields => ofRecord fields (ofFields fields)
  | .null | .bool _ | .int _ | .float _ => {}

def ofItems : List Document → List (Except Fault Document)
  | [] => []
  | d :: rest => (ofDocument d).words :: ofItems rest

def ofFields : List (String × Document) → List (String × Phrase)
  | [] => []
  | (k, d) :: rest => (k, ofDocument d) :: ofFields rest

end

end Phrase

/-- An expression in words. A name stands for itself, whatever it is. -/
def Document.words (d : Document) : Except Fault Document := (Phrase.ofDocument d).words

end TaintFlow
