/-
The shortest decimal of a binary float: of all decimals that round to the float, one with the fewest
digits, and of those the nearest. The float is m · 2^q; the decimals that round to it fill an
interval around it, whose ends belong to it when m is even. On the grid of the multiples of 10^k,
one of the two neighbours of the float lies in the interval as soon as any point of the grid does,
so the coarsest grid with a neighbour in the interval gives the answer.
-/
namespace TaintFlow.Decimal

/-- The magnitude of a float, or what it is instead of a number. -/
inductive Magnitude where
  | finite (mantissa : Nat) (exponent : Int) (narrow : Bool)
  | infinite
  | notANumber
deriving DecidableEq, Repr

/-- The sign bit of a binary64 float. -/
def isNegative (bits : UInt64) : Bool := bits >>> 63 = 1

/-- Takes a binary64 float apart. It is `narrow` when the gap to the next float below is half of the
gap to the next one above. -/
def magnitude (bits : UInt64) : Magnitude :=
  let field := ((bits >>> 52) &&& 0x7ff).toNat
  let fraction := (bits &&& 0xfffffffffffff).toNat
  if field = 2047 then (if fraction = 0 then .infinite else .notANumber)
  else if field = 0 then .finite fraction (-1074) false
  else .finite (fraction + 0x10000000000000) (field - 1075) (fraction = 0 && 1 < field)

/-- `x · base^e` as a fraction. -/
def scale (x base : Nat) (e : Int) : Nat × Nat :=
  match e with
  | .ofNat n => (x * base.pow n, 1)
  | .negSucc n => (x, base.pow (n + 1))

/-- The number of decimal digits. -/
def digitCount (n : Nat) : Nat := (Nat.toDigits 10 n).length

/-- The exponent `e` with 10^e ≤ num / den < 10^(e+1). -/
def decimalExponent (num den : Nat) : Int :=
  let guess : Int := digitCount num - digitCount den
  let (up, down) := scale 1 10 guess
  if den * up ≤ num * down then guess else guess - 1

/-- A decimal `digits · 10^exponent`. -/
structure Numeral where
  digits : Nat
  exponent : Int
deriving DecidableEq, Repr

/-- The neighbour of m · 2^q on the grid of the multiples of 10^k that rounds to it, if one does; the
nearer if both do, and of two equally near ones the even one. -/
def onGrid? (m : Nat) (q : Int) (narrow : Bool) (k : Int) : Option Numeral :=
  let (num, den) := scale (4 * m) 2 (q - 2)
  let (lo, _) := scale (if narrow then 4 * m - 1 else 4 * m - 2) 2 (q - 2)
  let (hi, _) := scale (4 * m + 2) 2 (q - 2)
  let (up, down) := scale 1 10 k
  -- everything over the common denominator `den`, in units of `unit / den`
  let unit := den * up
  let value := num * down
  let fits := fun d : Nat =>
    if m % 2 = 0 then lo * down ≤ d * unit && d * unit ≤ hi * down
    else lo * down < d * unit && d * unit < hi * down
  let below := value / unit
  let above := below + 1
  let gapBelow := value - below * unit
  let gapAbove := above * unit - value
  match fits below, fits above with
  | true, true =>
    some ⟨if gapBelow < gapAbove || (gapBelow = gapAbove && below % 2 = 0) then below else above, k⟩
  | true, false => some ⟨below, k⟩
  | false, true => some ⟨above, k⟩
  | false, false => none

/-- Tries grids with more and more digits. -/
def search (m : Nat) (q : Int) (narrow : Bool) (top : Int) : (more : Nat) → Nat → Numeral
  | 0, n => (onGrid? m q narrow (top - n)).getD ⟨0, 0⟩
  | more + 1, n => (onGrid? m q narrow (top - n)).getD (search m q narrow top more (n + 1))

/-- The decimal without trailing zeros. -/
def strip : (fuel : Nat) → Numeral → Numeral
  | 0, d => d
  | fuel + 1, d =>
    if d.digits ≠ 0 && d.digits % 10 = 0 then strip fuel ⟨d.digits / 10, d.exponent + 1⟩ else d

/-- The shortest decimal of m · 2^q, for m > 0. -/
def shortest (m : Nat) (q : Int) (narrow : Bool) : Numeral :=
  let (num, den) := scale m 2 q
  strip 20 (search m q narrow (decimalExponent num den) 17 0)

/-- How a decimal is written: positionally for exponents of the first digit in a range, else with an
exponent part; the words are for what is no number. -/
structure Style where
  least : Int
  most : Int
  infinity : String
  notANumber : String

/-- Positional from 10^-4 up to 10^16, with a digit after the point. -/
def Style.plain : Style := ⟨-4, 15, "inf", "nan"⟩

/-- As `Style.plain`, with the words of a document. -/
def Style.document : Style := ⟨-4, 15, "Infinity", "NaN"⟩

/-- At least two digits of an exponent, with its sign. -/
def exponentText (e : Int) : String :=
  let digits := toString e.natAbs
  (if e < 0 then "-" else "+") ++ (if digits.length < 2 then "0" ++ digits else digits)

/-- The text of a decimal that is not negative. -/
def write (style : Style) (d : Numeral) : String :=
  let digits := toString d.digits
  let count : Int := digits.length
  let point := count + d.exponent
  if point - 1 < style.least || style.most < point - 1 then
    let rest := digits.drop 1
    (digits.take 1).toString ++ (if rest.isEmpty then "" else "." ++ rest.toString) ++ "e" ++
      exponentText (point - 1)
  else if point ≤ 0 then "0." ++ String.ofList (List.replicate (-point).toNat '0') ++ digits
  else if count ≤ point then digits ++ String.ofList (List.replicate (point - count).toNat '0') ++ ".0"
  else (digits.take point.toNat).toString ++ "." ++ (digits.drop point.toNat).toString

/-- The text of a binary64 float. -/
def text (style : Style) (bits : UInt64) : String :=
  let sign := if isNegative bits then "-" else ""
  match magnitude bits with
  | .notANumber => style.notANumber
  | .infinite => sign ++ style.infinity
  | .finite 0 _ _ => sign ++ "0.0"
  | .finite m q narrow => sign ++ write style (shortest m q narrow)

end TaintFlow.Decimal
