import TaintFlow.Text.Printable

/-
Quoted texts: a text between quotes, on one line, in printable characters. The quote is `'` unless
the text has a `'` and no `"`.
-/
namespace TaintFlow.Text

/-- The digits of a number in base 16, padded with zeros to a width. -/
def hex (width n : Nat) : String :=
  let digits := Nat.toDigits 16 n
  String.ofList (List.replicate (width - digits.length) '0' ++ digits)

/-- The quote for a text. -/
def quoteFor (s : List Char) : Char := if '\x27' ∈ s && !('"' ∈ s) then '"' else '\x27'

/-- A character between quotes. -/
def escape (quote c : Char) : String :=
  if c = quote || c = '\\' then String.ofList ['\\', c]
  else if c = '\n' then "\\n"
  else if c = '\r' then "\\r"
  else if c = '\t' then "\\t"
  else if isPrintable c then c.toString
  else if c.toNat < 0x100 then "\\x" ++ hex 2 c.toNat
  else if c.toNat < 0x10000 then "\\u" ++ hex 4 c.toNat
  else "\\U" ++ hex 8 c.toNat

def quoted (s : String) : String :=
  let quote := quoteFor s.toList
  quote.toString ++ String.join (s.toList.map (escape quote)) ++ quote.toString

end TaintFlow.Text
