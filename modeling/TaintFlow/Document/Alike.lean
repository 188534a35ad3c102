import TaintFlow.Decimal.Shortest
import TaintFlow.Document

/-
Documents with the same value. Numbers count by their value, so that an integer, a float and a truth
value may be alike; records count as sets of fields.
-/
namespace TaintFlow.Document

/-- The value of a float as a fraction, if it has one. -/
def fraction (bits : UInt64) : Option (Int × Nat) :=
  match Decimal.magnitude bits with
  | .finite m q _ =>
    let (num, den) := Decimal.scale m 2 q
    some (if Decimal.isNegative bits then -(num : Int) else num, den)
  | _ => none

/-- A number as a fraction; `none` for what is no number and for floats without a finite value. -/
def number? : Document → Option (Int × Nat)
  | .bool b => some (if b then 1 else 0, 1)
  | .int i => some (i, 1)
  | .float bits => fraction bits
  | _ => none

/-- Two floats without a finite value are alike if they are the same infinity. -/
def sameInfinity (a b : UInt64) : Bool := a = b && Decimal.magnitude a = .infinite

/-- Scalars with the same value. -/
def scalarAlike (a b : Document) : Bool :=
  match a.number?, b.number? with
  | some (n, d), some (n', d') => n * d' = n' * d
  | none, none =>
    match a, b with
    | .null, .null => true
    | .text s, .text t => s = t
    | .float x, .float y => sameInfinity x y
    | _, _ => false
  | _, _ => false

mutual

def alike : Document → Document → Bool
  | .list a, .list b => itemsAlike a b
  | .record a, .record b => a.length = b.length && fieldsAlike a b
  | a, b => scalarAlike a b

def itemsAlike : List Document → List Document → Bool
  | [], [] => true
  | a :: as, b :: bs => alike a b && itemsAlike as bs
  | _, _ => false

/-- Every field of the first list is in the second. -/
def fieldsAlike : List (String × Document) → List (String × Document) → Bool
  | [], _ => true
  | (k, a) :: rest, b =>
    (match lookup k b with
      | some d => alike a d
      | none => false) && fieldsAlike rest b

end

theorem alike_text (s t : String) : alike (.text s) (.text t) = decide (s = t) := by
  rw [alike] <;> simp [scalarAlike, number?]

end TaintFlow.Document
