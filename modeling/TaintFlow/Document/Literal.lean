import TaintFlow.Decimal.Shortest
import TaintFlow.Document
import TaintFlow.Text.Quoted

/-
The literal of a document: the expression that would denote it in the analysed language.
-/
namespace TaintFlow.Document

mutual

def literal : Document → String
  | .null => "None"
  | .bool true => "True"
  | .bool false => "False"
  | .int i => toString i
  | .float bits => Decimal.text .plain bits
  | .text s => Text.quoted s
  | .list items => "[" ++ ", ".intercalate (itemLiterals items) ++ "]"
  | .record fields => "\x7b" ++ ", ".intercalate (fieldLiterals fields) ++ "\x7d"

def itemLiterals : List Document → List String
  | [] => []
  | d :: rest => literal d :: itemLiterals rest

def fieldLiterals : List (String × Document) → List String
  | [] => []
  | (k, d) :: rest => (Text.quoted k ++ ": " ++ literal d) :: fieldLiterals rest

end

/-- A text as it stands, anything else by its literal. -/
def display : Document → String
  | .text s => s
  | d => d.literal

end TaintFlow.Document
