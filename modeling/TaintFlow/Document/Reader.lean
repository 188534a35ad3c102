import TaintFlow.Document

/-
Reading JSON text. Besides JSON proper the reader takes `NaN`, `Infinity` and `-Infinity`. A key that
a record repeats has its last value and its first place.
-/
namespace TaintFlow.Document

/-- The blanks between tokens. -/
def isBlank (c : Char) : Bool := c = ' ' || c = '\t' || c = '\n' || c = '\r'

def skip (cs : List Char) : List Char := cs.dropWhile isBlank

/-- The value of a hexadecimal digit. -/
def hexDigit? (c : Char) : Option Nat :=
  if c.isDigit then some (c.toNat - '0'.toNat)
  else if 'a' ≤ c && c ≤ 'f' then some (c.toNat - 'a'.toNat + 10)
  else if 'A' ≤ c && c ≤ 'F' then some (c.toNat - 'A'.toNat + 10)
  else none

/-- Four hexadecimal digits. -/
def hex4? : List Char → Option (Nat × List Char)
  | a :: b :: c :: d :: rest => do
    let a ← hexDigit? a
    let b ← hexDigit? b
    let c ← hexDigit? c
    let d ← hexDigit? d
    return (((a * 16 + b) * 16 + c) * 16 + d, rest)
  | _ => none

def isHighSurrogate (n : Nat) : Bool := 0xd800 ≤ n && n < 0xdc00

def isLowSurrogate (n : Nat) : Bool := 0xdc00 ≤ n && n < 0xe000

/-- The character of a code unit and the unit that may follow it; a surrogate without its partner is
the replacement character. -/
def unitChar (n : Nat) (rest : List Char) : Char × List Char :=
  if isHighSurrogate n then
    match rest with
    | '\\' :: 'u' :: rest' =>
      match hex4? rest' with
      | some (m, rest'') =>
        if isLowSurrogate m then (Char.ofNat (0x10000 + (n - 0xd800) * 0x400 + (m - 0xdc00)), rest'')
        else (Char.ofNat 0xfffd, rest)
      | none => (Char.ofNat 0xfffd, rest)
    | _ => (Char.ofNat 0xfffd, rest)
  else if isLowSurrogate n then (Char.ofNat 0xfffd, rest)
  else (Char.ofNat n, rest)

/-- The rest of a string after its opening quote. -/
def readString : (fuel : Nat) → List Char → List Char → Option (String × List Char)
  | 0, _, _ => none
  | fuel + 1, acc, cs =>
    match cs with
    | [] => none
    | '"' :: rest => some (String.ofList acc.reverse, rest)
    | '\\' :: c :: rest =>
      match c with
      | '"' => readString fuel ('"' :: acc) rest
      | '\\' => readString fuel ('\\' :: acc) rest
      | '/' => readString fuel ('/' :: acc) rest
      | 'b' => readString fuel (Char.ofNat 8 :: acc) rest
      | 'f' => readString fuel (Char.ofNat 12 :: acc) rest
      | 'n' => readString fuel ('\n' :: acc) rest
      | 'r' => readString fuel ('\r' :: acc) rest
      | 't' => readString fuel ('\t' :: acc) rest
      | 'u' =>
        match hex4? rest with
        | some (n, rest) =>
          let (c, rest) := unitChar n rest
          readString fuel (c :: acc) rest
        | none => none
      | _ => none
    | c :: rest => if c.toNat < 0x20 then none else readString fuel (c :: acc) rest

/-- The number that a list of digits denotes. -/
def natOfDigits (ds : List Char) : Nat := ds.foldl (fun n d => n * 10 + (d.toNat - '0'.toNat)) 0

/-- Splits off a fraction: a point with digits after it. -/
def fraction? : List Char → Option (List Char × List Char)
  | '.' :: rest =>
    if (rest.takeWhile Char.isDigit).isEmpty then none
    else some (rest.takeWhile Char.isDigit, rest.dropWhile Char.isDigit)
  | _ => none

/-- Splits off the digits of an exponent. -/
def signedDigits? (negative : Bool) (cs : List Char) : Option (Int × List Char) :=
  let digits := cs.takeWhile Char.isDigit
  if digits.isEmpty then none
  else
    let n : Int := natOfDigits digits
    some (if negative then -n else n, cs.dropWhile Char.isDigit)

def exponent? : List Char → Option (Int × List Char)
  | e :: '-' :: rest => if e = 'e' || e = 'E' then signedDigits? true rest else none
  | e :: '+' :: rest => if e = 'e' || e = 'E' then signedDigits? false rest else none
  | e :: rest => if e = 'e' || e = 'E' then signedDigits? false rest else none
  | [] => none

/-- The float nearest to `±m · 10^e`. Beyond the range of floats the exponent only has to be far
enough out. -/
def floatOf (negative : Bool) (m : Nat) (e : Int) : UInt64 :=
  let e := max (-20000) (min 20000 e)
  let f := Float.ofScientific m (e < 0) e.natAbs
  (if negative then -f else f).toBits

/-- A number without its sign. -/
def readNumber (negative : Bool) (cs : List Char) : Option (Document × List Char) :=
  let digits := match cs with
    | '0' :: _ => ['0']
    | _ => cs.takeWhile Char.isDigit
  if digits.isEmpty then none
  else
    let rest := cs.drop digits.length
    let frac := fraction? rest
    let rest' := (frac.map (·.2)).getD rest
    match frac, exponent? rest' with
    | none, none =>
      let n : Int := natOfDigits digits
      some (.int (if negative then -n else n), rest)
    | _, e =>
      let tail := (frac.map (·.1)).getD []
      let shift := (e.map (·.1)).getD 0 - tail.length
      some (.float (floatOf negative (natOfDigits (digits ++ tail)) shift), (e.map (·.2)).getD rest')

/-- The fields with one more; a repeated key keeps its place. -/
def putField (fields : List (String × Document)) (k : String) (d : Document) :
    List (String × Document) :=
  if fields.any (·.1 = k) then fields.map fun f => if f.1 = k then (k, d) else f
  else fields ++ [(k, d)]

/-- Drops a word from the front of the text. -/
def word? (w : String) (cs : List Char) : Option (List Char) :=
  if w.toList.isPrefixOf cs then some (cs.drop w.length) else none

mutual

def readValue : (fuel : Nat) → List Char → Option (Document × List Char)
  | 0, _ => none
  | fuel + 1, cs =>
    match cs with
    | '"' :: rest => do
      let (s, rest) ← readString fuel [] rest
      return (.text s, rest)
    | '[' :: rest =>
      match skip rest with
      | ']' :: rest => some (.list [], rest)
      | rest => readItems fuel [] rest
    | '\x7b' :: rest =>
      match skip rest with
      | '\x7d' :: rest => some (.record [], rest)
      | rest => readFields fuel [] rest
    | 'n' :: _ => (word? "null" cs).map (.null, ·)
    | 't' :: _ => (word? "true" cs).map (.bool true, ·)
    | 'f' :: _ => (word? "false" cs).map (.bool false, ·)
    | 'N' :: _ => (word? "NaN" cs).map (.float 0x7ff8000000000000, ·)
    | 'I' :: _ => (word? "Infinity" cs).map (.float 0x7ff0000000000000, ·)
    | '-' :: 'I' :: _ => (word? "-Infinity" cs).map (.float 0xfff0000000000000, ·)
    | '-' :: rest => readNumber true rest
    | _ => readNumber false cs

/-- The items of a list, after its bracket or a comma. -/
def readItems : (fuel : Nat) → List Document → List Char → Option (Document × List Char)
  | 0, _, _ => none
  | fuel + 1, acc, cs => do
    let (d, rest) ← readValue fuel (skip cs)
    match skip rest with
    | ',' :: rest => readItems fuel (acc ++ [d]) rest
    | ']' :: rest => return (.list (acc ++ [d]), rest)
    | _ => none

/-- The fields of a record, after its brace or a comma. -/
def readFields : (fuel : Nat) → List (String × Document) → List Char → Option (Document × List Char)
  | 0, _, _ => none
  | fuel + 1, acc, cs =>
    match skip cs with
    | '"' :: rest => do
      let (k, rest) ← readString fuel [] rest
      match skip rest with
      | ':' :: rest =>
        let (d, rest) ← readValue fuel (skip rest)
        match skip rest with
        | ',' :: rest => readFields fuel (putField acc k d) rest
        | '\x7d' :: rest => return (.record (putField acc k d), rest)
        | _ => none
      | _ => none
    | _ => none

end

/-- The document that a text is, with blanks around it. -/
def parse? (s : String) : Option Document := do
  let cs := skip s.toList
  let (d, rest) ← readValue (2 * cs.length + 2) cs
  if (skip rest).isEmpty then some d else none

end TaintFlow.Document
