import TaintFlow.Document.Reader

/-
Literals of programs: numbers with digits in groups, and quoted texts with escapes. A number must not
run into a name, unless the name is a word that can follow a number.
-/
namespace TaintFlow.Source

open Document

/-- A character that the scanner takes into a name; whether it may stand there is checked later. -/
def isNameChar (c : Char) : Bool := c.isAlphanum || c = '_' || 128 ≤ c.toNat

/-- Digits with single underscores between them. `after` says that an underscore was just read. -/
def grouped (isDigit : Char → Bool) (after : Bool) : List Char → Option (List Char × List Char)
  | [] => if after then none else some ([], [])
  | c :: rest =>
    if isDigit c then (grouped isDigit false rest).map fun (ds, r) => (c :: ds, r)
    else if after then none
    else if c = '_' then grouped isDigit true rest
    else some ([], c :: rest)

/-- The words that can follow a number without a blank. -/
def followers : List String := ["and", "else", "for", "if", "in", "is", "or", "not"]

/-- The number ends here. -/
def endsNumber (cs : List Char) : Bool :=
  match cs with
  | [] => true
  | c :: _ => !isNameChar c || followers.any (·.toList.isPrefixOf cs)

/-- A number and the text behind it. -/
def closeNumber (d : Document) (cs : List Char) : Option (Document × List Char) :=
  if endsNumber cs then some (d, cs) else none

/-- The value of digits in a base. -/
def natOfBase (base : Nat) (ds : List Char) : Nat :=
  ds.foldl (fun n d => n * base + (hexDigit? d).getD 0) 0

def isBaseDigit (base : Nat) (c : Char) : Bool := (hexDigit? c).any (· < base)

/-- The digits of a number in another base than ten. -/
def basedNumber (base : Nat) (cs : List Char) : Option (Document × List Char) :=
  match grouped (isBaseDigit base) false cs with
  | some (d :: ds, rest) => closeNumber (.int (natOfBase base (d :: ds))) rest
  | _ => none

/-- The digits of a decimal number, if the text begins with some. -/
def digits (cs : List Char) : Option (List Char × List Char) :=
  match cs with
  | c :: _ => if c.isDigit then grouped Char.isDigit false cs else some ([], cs)
  | [] => some ([], [])

/-- The exponent of a number: nothing at all, or its value. -/
def exponent (cs : List Char) : Option (Option Int × List Char) :=
  let value (negative : Bool) (cs : List Char) : Option (Option Int × List Char) :=
    match digits cs with
    | some (d :: ds, rest) =>
      let n : Int := natOfDigits (d :: ds)
      some (some (if negative then -n else n), rest)
    | _ => none
  match cs with
  | e :: rest =>
    if e = 'e' || e = 'E' then
      match rest with
      | '+' :: rest => value false rest
      | '-' :: rest => value true rest
      | c :: _ => if c.isDigit then value false rest else some (none, cs)
      | [] => some (none, cs)
    else some (none, cs)
  | [] => some (none, cs)

/-- The float with these digits before and after the point. -/
def decimalFloat (whole fraction : List Char) (e : Int) : Document :=
  .float (floatOf false (natOfDigits (whole ++ fraction)) (e - fraction.length))

/-- A decimal number. A whole number has no leading zeros, except for zero itself. -/
def decimalNumber (cs : List Char) : Option (Document × List Char) := do
  let (whole, rest) ← digits cs
  let (point, fraction, rest) ← match rest with
    | '.' :: rest => (digits rest).map fun (ds, r) => (true, ds, r)
    | _ => some (false, [], rest)
  let (e, rest) ← exponent rest
  if point || e.isSome then closeNumber (decimalFloat whole fraction (e.getD 0)) rest
  else if whole.head? = some '0' && whole.any (· ≠ '0') then none
  else closeNumber (.int (natOfDigits whole)) rest

/-- The number at the front of a text that begins with a digit, or with a point and a digit. -/
def number (cs : List Char) : Option (Document × List Char) :=
  match cs with
  | '0' :: 'x' :: rest | '0' :: 'X' :: rest => basedNumber 16 rest
  | '0' :: 'o' :: rest | '0' :: 'O' :: rest => basedNumber 8 rest
  | '0' :: 'b' :: rest | '0' :: 'B' :: rest => basedNumber 2 rest
  | _ => decimalNumber cs

/-- The inside of a text up to its closing quote, with escapes as they stand. -/
def shortBody (quote : Char) : List Char → Option (List Char × List Char)
  | [] => none
  | '\n' :: _ => none
  | '\\' :: c :: rest => (shortBody quote rest).map fun (b, r) => ('\\' :: c :: b, r)
  | c :: rest =>
    if c = quote then some ([], rest) else (shortBody quote rest).map fun (b, r) => (c :: b, r)

/-- The inside of a text up to three closing quotes. -/
def longBody (quote : Char) : List Char → Option (List Char × List Char)
  | [] => none
  | '\\' :: c :: rest => (longBody quote rest).map fun (b, r) => ('\\' :: c :: b, r)
  | c :: rest =>
    if c = quote && [quote, quote].isPrefixOf rest then some ([], rest.drop 2)
    else (longBody quote rest).map fun (b, r) => (c :: b, r)

/-- The inside of a quoted text, after its prefix, and the text behind it. -/
def quotedBody : List Char → Option (List Char × List Char)
  | q :: rest =>
    if [q, q].isPrefixOf rest then longBody q (rest.drop 2) else shortBody q rest
  | [] => none

/-- The character with a code; a code that belongs to no character stands for the replacement
character. -/
def charOf (n : Nat) : Option Char :=
  if 0x10ffff < n then none
  else if 0xd800 ≤ n && n < 0xe000 then some (Char.ofNat 0xfffd)
  else some (Char.ofNat n)

/-- The character with a code written in hexadecimal digits. -/
def hexChar (ds : List Char) : Option Char :=
  if ds.all (isBaseDigit 16) then charOf (natOfBase 16 ds) else none

def isOctal (c : Char) : Bool := isBaseDigit 8 c

/-- The escapes of one character. -/
def escapes : List (Char × Char) :=
  [('\\', '\\'), ('\x27', '\x27'), ('"', '"'), ('a', '\x07'), ('b', '\x08'), ('f', '\x0c'),
    ('n', '\n'), ('r', '\r'), ('t', '\t'), ('v', '\x0b')]

/-- Resolves the escapes of a text. A backslash before any other character stands for itself; one
before the end of a line joins the lines. -/
def unescape : List Char → Option (List Char)
  | [] => some []
  | '\\' :: '\n' :: rest => unescape rest
  | '\\' :: 'x' :: a :: b :: rest => do
    return (← hexChar [a, b]) :: (← unescape rest)
  | '\\' :: 'u' :: a :: b :: c :: d :: rest => do
    return (← hexChar [a, b, c, d]) :: (← unescape rest)
  | '\\' :: 'U' :: a :: b :: c :: d :: e :: f :: g :: h :: rest => do
    return (← hexChar [a, b, c, d, e, f, g, h]) :: (← unescape rest)
  | '\\' :: a :: b :: c :: rest =>
    if isOctal a && isOctal b && isOctal c then do
      return (← charOf (natOfBase 8 [a, b, c])) :: (← unescape rest)
    else if isOctal a && isOctal b then do
      return (← charOf (natOfBase 8 [a, b])) :: (← unescape (c :: rest))
    else unescapeOne a (unescape (b :: c :: rest))
  | ['\\', a, b] =>
    if isOctal a && isOctal b then do return [← charOf (natOfBase 8 [a, b])]
    else unescapeOne a (unescape [b])
  | '\\' :: a :: rest => unescapeOne a (unescape rest)
  | c :: rest => (unescape rest).map (c :: ·)
where
  /-- The escape of one character, before the rest of the text. -/
  unescapeOne (a : Char) (rest : Option (List Char)) : Option (List Char) :=
    if isOctal a then do return (← charOf (natOfBase 8 [a])) :: (← rest)
    else if a = 'x' || a = 'u' || a = 'U' || a = 'N' then none
    else match escapes.lookup a with
      | some c => rest.map (c :: ·)
      | none => rest.map fun r => '\\' :: a :: r

end TaintFlow.Source
