import TaintFlow.Decimal.Shortest
import TaintFlow.Document
import TaintFlow.Text.Quoted

/-
Documents as JSON text: indented by four blanks a level, one item or field a line, empty lists and
records closed at once, characters beyond ASCII as they are.
-/
namespace TaintFlow.Document

/-- A character of a string of JSON. -/
def escape (c : Char) : String :=
  if c = '"' then "\\\""
  else if c = '\\' then "\\\\"
  else if c = '\n' then "\\n"
  else if c = '\r' then "\\r"
  else if c = '\t' then "\\t"
  else if c.toNat = 8 then "\\b"
  else if c.toNat = 12 then "\\f"
  else if c.toNat < 0x20 then "\\u" ++ Text.hex 4 c.toNat
  else c.toString

def string (s : String) : String := "\"" ++ String.join (s.toList.map escape) ++ "\""

/-- A line break and the indentation of a level. -/
def newline (level : Nat) : String := "\n" ++ String.ofList (List.replicate (4 * level) ' ')

mutual

/-- The text of a document at a level of indentation. -/
def printAt (level : Nat) : Document → String
  | .null => "null"
  | .bool true => "true"
  | .bool false => "false"
  | .int i => toString i
  | .float bits => Decimal.text .document bits
  | .text s => string s
  | .list [] => "[]"
  | .list items =>
    "[" ++ newline (level + 1) ++
      ("," ++ newline (level + 1)).intercalate (printItems (level + 1) items) ++ newline level ++ "]"
  | .record [] => "\x7b\x7d"
  | .record fields =>
    "\x7b" ++ newline (level + 1) ++
      ("," ++ newline (level + 1)).intercalate (printFields (level + 1) fields) ++ newline level ++
      "\x7d"

def printItems (level : Nat) : List Document → List String
  | [] => []
  | d :: rest => printAt level d :: printItems level rest

def printFields (level : Nat) : List (String × Document) → List String
  | [] => []
  | (k, d) :: rest => (string k ++ ": " ++ printAt level d) :: printFields level rest

end

/-- The document as indented JSON text, without a final line break. -/
def print (d : Document) : String := printAt 0 d

end TaintFlow.Document
