import TaintFlow.Fault
import TaintFlow.Source.Literal
import TaintFlow.Source.Place
import TaintFlow.Text.Identifier
import TaintFlow.Text.Printable

/-
The tokens of a program. Outside brackets the end of a line is a token, and so are a line that is
indented deeper than the one before and the return to an outer level. Blank lines and comments leave
no token. Where the text cannot be divided further the last token is the fault.
-/
namespace TaintFlow.Source

inductive Token.Kind where
  | word (s : String)
  | number (value : Document)
  | text (value : String) (tagged : Bool)
  | sign (s : String)
  | newline
  | indent
  | dedent
  | ending
  /-- The text cannot be divided further. A fault of the layout is not `within` a token. -/
  | fault (cause : Fault) (within : Bool)
deriving Repr, Inhabited

structure Token where
  kind : Token.Kind
  span : Span := {}
deriving Repr, Inhabited

/-- The open blocks, innermost first, each with its indentation when tabs reach to the next multiple of
eight and when they count one; and the open brackets. -/
structure Layout where
  levels : List (Nat × Nat) := [(0, 0)]
  brackets : List Char := []
deriving Repr, Inhabited

namespace Layout

/-- The most levels of blocks, and of brackets. -/
def maxLevels : Nat := 100

def maxBrackets : Nat := 200

/-- The innermost level. -/
def level (l : Layout) : Nat × Nat := l.levels.headD (0, 0)

/-- Closes the blocks that a line at a column is outside of. -/
def closeTo (column : Nat) : List (Nat × Nat) → Nat × List (Nat × Nat)
  | [] => (0, [])
  | [outermost] => (0, [outermost])
  | l :: rest =>
    if column < l.1 then
      let (n, levels) := closeTo column rest
      (n + 1, levels)
    else (0, l :: rest)

/-- Starts a line at an indentation: the tokens for blocks that open or close before it. -/
def startLine (l : Layout) (width : Nat × Nat) : List Token.Kind × Layout :=
  let (column, narrow) := width
  if column = l.level.1 then
    (if narrow = l.level.2 then [] else [.fault .mixedIndentation false], l)
  else if l.level.1 < column then
    if maxLevels ≤ l.levels.length then ([.fault .badIndentation false], l)
    else if narrow ≤ l.level.2 then ([.fault .mixedIndentation false], l)
    else ([.indent], { l with levels := width :: l.levels })
  else
    let (n, levels) := closeTo column l.levels
    let l := { l with levels }
    let closings := List.replicate n Token.Kind.dedent
    if column ≠ l.level.1 then ([.fault .badIndentation false], l)
    else if narrow ≠ l.level.2 then ([.fault .mixedIndentation false], l)
    else (closings, l)

end Layout

/-- The signs, those of more characters first. -/
def signs : List String :=
  ["**=", "//=", ">>=", "<<=", "...", "!=", "%=", "&=", "**", "*=", "+=", "-=", "->", "//", "/=", ":=",
    "<<", "<=", "<>", "==", ">=", ">>", "@=", "^=", "|="]

/-- The sign at the front of a text: a known one, or a single character. -/
def signAt (cs : List Char) : String :=
  match signs.find? (·.toList.isPrefixOf cs) with
  | some s => s
  | none => String.ofList (cs.take 1)

def isSpace (c : Char) : Bool := c = ' ' || c = '\t' || c = '\x0c'

/-- The indentation of a line, and the text behind it; nothing if a broken line has no next one. A
line that is broken within its indentation has the indentation of its first part. -/
def indentation (width : Nat × Nat) (broken : Nat) : List Char → Option ((Nat × Nat) × List Char)
  | ' ' :: rest => indentation (width.1 + 1, width.2 + 1) broken rest
  | '\t' :: rest => indentation ((width.1 / 8 + 1) * 8, width.2 + 1) broken rest
  | '\x0c' :: rest => indentation (0, 0) broken rest
  | '\\' :: '\n' :: rest =>
    if rest.isEmpty then none
    else indentation width (if broken = 0 then width.1 else broken) rest
  | '\\' :: _ => none
  | rest => some (if broken = 0 then width else (broken, broken), rest)

/-- The prefixes of quoted texts. -/
def textPrefixes : List String := ["r", "u", "b", "f", "br", "rb", "fr", "rf"]

/-- A word is well formed as a name. -/
def isWord : List Char → Bool
  | [] => false
  | c :: rest => Text.isIdentifierStart c && rest.all Text.isIdentifierPart

/-- A quoted text with its prefix in small letters. Texts of bytes and texts with insertions are not
part of the language. -/
def textToken (tag : String) (cs : List Char) : Option (Token.Kind × List Char) := do
  let (body, rest) ← quotedBody cs
  match tag with
  | "" => return (.text (String.ofList (← unescape body)) false, rest)
  | "u" => return (.text (String.ofList (← unescape body)) true, rest)
  | "r" => return (.text (String.ofList body) false, rest)
  | _ => none

/-- A word, or a quoted text with a prefix. -/
def wordToken (cs : List Char) : Option (Token.Kind × List Char) :=
  let word := cs.takeWhile isNameChar
  let rest := cs.dropWhile isNameChar
  let tag := (String.ofList word).toLower
  let quoted := match rest with
    | '"' :: _ | '\x27' :: _ => textPrefixes.contains tag
    | _ => false
  if quoted then textToken tag rest
  else if isWord word then some (.word (String.ofList word), rest)
  else none

/-- The word, number or quoted text at the front of a text, if it begins as one. -/
def literalToken (cs : List Char) : Option (Option (Token.Kind × List Char)) :=
  match cs with
  | '.' :: d :: _ => if d.isDigit then some ((number cs).map numbered) else none
  | '"' :: _ | '\x27' :: _ => some (textToken "" cs)
  | c :: _ =>
    if c.isDigit then some ((number cs).map numbered)
    else if isNameChar c then some (wordToken cs)
    else none
  | [] => none
where
  numbered : Document × List Char → Token.Kind × List Char := fun (d, rest) => (.number d, rest)

/-- Opens or closes brackets at a sign; nothing if the brackets do not match. -/
def Layout.bracket (l : Layout) (s : String) : Option Layout :=
  let shut (left : Char) : Option Layout :=
    match l.brackets with
    | b :: rest => if b = left then some { l with brackets := rest } else none
    | [] => none
  match s with
  | "(" | "[" | "\x7b" =>
    if maxBrackets ≤ l.brackets.length then none
    else some { l with brackets := s.toList ++ l.brackets }
  | ")" => shut '('
  | "]" => shut '['
  | "\x7d" => shut '\x7b'
  | _ => some l

/-- Divides a text into tokens. `fresh` says that a line begins. -/
def scan : (fuel : Nat) → (fresh : Bool) → Layout → Cursor → List Token
  | 0, _, _, _ => []
  | fuel + 1, true, l, c =>
    match indentation (0, 0) 0 c.rest with
    | none => [⟨.fault .badSyntax false, ⟨c.place, c.place⟩⟩]
    | some (width, rest) =>
      let c' := c.skip (c.rest.length - rest.length)
      match rest with
      | '#' :: _ =>
        scan fuel true l ((c'.skipWhile (· ≠ '\n')).skip 1)
      | '\n' :: _ => scan fuel true l (c'.skip 1)
      | _ =>
        let (kinds, l) := l.startLine width
        kinds.map (fun k => ⟨k, ⟨c'.place, c'.place⟩⟩) ++
          (if kinds.any (fun k => k matches .fault _ _) then [] else scan fuel false l c')
  | fuel + 1, false, l, c =>
    let c := c.skipWhile isSpace
    let fault (cause : Fault) (within : Bool) : List Token :=
      [⟨.fault cause within, ⟨c.place, c.place⟩⟩]
    match c.rest with
    | [] => if l.brackets.isEmpty then [⟨.ending, ⟨c.place, c.place⟩⟩] else fault .badSyntax false
    | '#' :: _ => scan fuel false l (c.skipWhile (· ≠ '\n'))
    | '\n' :: _ =>
      if l.brackets.isEmpty then
        ⟨.newline, ⟨c.place, c.place⟩⟩ :: scan fuel true l (c.skip 1)
      else scan fuel false l (c.skip 1)
    | '\\' :: '\n' :: rest =>
      if rest.isEmpty then fault .badSyntax false else scan fuel false l (c.skip 2)
    | '\\' :: _ => fault .badSyntax false
    | ch :: _ =>
      match literalToken c.rest with
      | some (some (kind, rest)) =>
        let c' := c.skip (c.rest.length - rest.length)
        ⟨kind, ⟨c.place, c'.place⟩⟩ :: scan fuel false l c'
      | some none => fault .badSyntax true
      | none =>
        let s := signAt c.rest
        match l.bracket s with
        | some l =>
          if Text.isPrintable ch then
            let c' := c.skip s.length
            ⟨.sign s, ⟨c.place, c'.place⟩⟩ :: scan fuel false l c'
          else fault .badSyntax true
        | none => fault .badSyntax true

/-- Ends of lines as one character, the last line included. -/
def normalise : List Char → List Char
  | [] => []
  | '\r' :: '\n' :: rest => '\n' :: normalise rest
  | '\r' :: rest => '\n' :: normalise rest
  | ['\n'] => ['\n']
  | [c] => [c, '\n']
  | c :: rest => c :: normalise rest

/-- The tokens of a program. -/
def tokens (program : String) : List Token :=
  let cs := normalise program.toList
  scan (2 * cs.length + 2) true {} { rest := cs }

end TaintFlow.Source
