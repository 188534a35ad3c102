/-
Documents: the data that pattern files, syntax trees and reports are made of. A record keeps its
fields in order; a number is an integer of any size or a binary64 float, kept as its bits.
-/
namespace TaintFlow

inductive Document where
  | null
  | bool (b : Bool)
  | int (i : Int)
  | float (bits : UInt64)
  | text (s : String)
  | list (items : List Document)
  | record (fields : List (String × Document))
deriving Repr, Inhabited

namespace Document

mutual

/-- Decides whether two documents are written alike. -/
def decideEq : (a b : Document) → Decidable (a = b)
  | .null, .null => .isTrue rfl
  | .bool a, .bool b => if h : a = b then .isTrue (h ▸ rfl) else .isFalse (by simpa using h)
  | .int a, .int b => if h : a = b then .isTrue (h ▸ rfl) else .isFalse (by simpa using h)
  | .float a, .float b => if h : a = b then .isTrue (h ▸ rfl) else .isFalse (by simpa using h)
  | .text a, .text b => if h : a = b then .isTrue (h ▸ rfl) else .isFalse (by simpa using h)
  | .list a, .list b => match decideEqItems a b with
    | .isTrue h => .isTrue (h ▸ rfl)
    | .isFalse h => .isFalse (by simpa using h)
  | .record a, .record b => match decideEqFields a b with
    | .isTrue h => .isTrue (h ▸ rfl)
    | .isFalse h => .isFalse (by simpa using h)
  | .null, .bool _ | .null, .int _ | .null, .float _ | .null, .text _ | .null, .list _
  | .null, .record _ | .bool _, .null | .bool _, .int _ | .bool _, .float _ | .bool _, .text _
  | .bool _, .list _ | .bool _, .record _ | .int _, .null | .int _, .bool _ | .int _, .float _
  | .int _, .text _ | .int _, .list _ | .int _, .record _ | .float _, .null | .float _, .bool _
  | .float _, .int _ | .float _, .text _ | .float _, .list _ | .float _, .record _
  | .text _, .null | .text _, .bool _ | .text _, .int _ | .text _, .float _ | .text _, .list _
  | .text _, .record _ | .list _, .null | .list _, .bool _ | .list _, .int _ | .list _, .float _
  | .list _, .text _ | .list _, .record _ | .record _, .null | .record _, .bool _
  | .record _, .int _ | .record _, .float _ | .record _, .text _ | .record _, .list _ =>
    .isFalse nofun

def decideEqItems : (a b : List Document) → Decidable (a = b)
  | [], [] => .isTrue rfl
  | x :: xs, y :: ys => match decideEq x y with
    | .isFalse h => .isFalse fun e => h (List.cons.inj e).1
    | .isTrue h => match decideEqItems xs ys with
      | .isFalse h' => .isFalse fun e => h' (List.cons.inj e).2
      | .isTrue h' => .isTrue (h ▸ h' ▸ rfl)
  | [], _ :: _ | _ :: _, [] => .isFalse nofun

def decideEqFields : (a b : List (String × Document)) → Decidable (a = b)
  | [], [] => .isTrue rfl
  | (k, x) :: xs, (l, y) :: ys =>
    if hk : k = l then match decideEq x y with
      | .isFalse h => .isFalse fun e => h (Prod.mk.inj (List.cons.inj e).1).2
      | .isTrue h => match decideEqFields xs ys with
        | .isFalse h' => .isFalse fun e => h' (List.cons.inj e).2
        | .isTrue h' => .isTrue (hk ▸ h ▸ h' ▸ rfl)
    else .isFalse fun e => hk (Prod.mk.inj (List.cons.inj e).1).1
  | [], _ :: _ | _ :: _, [] => .isFalse nofun

end

instance : DecidableEq Document := decideEq

/-- The value of a field of a list of fields. -/
def lookup (name : String) : List (String × Document) → Option Document
  | [] => none
  | (k, d) :: rest => if k = name then some d else lookup name rest

theorem isSome_lookup {name : String} : ∀ {fields : List (String × Document)}, name ∈ fields.map (·.1) →
    (lookup name fields).isSome = true
  | (k, d) :: rest, h => by
    rw [lookup]
    split
    · rfl
    · next hne => exact isSome_lookup ((List.mem_cons.1 h).resolve_left fun heq => hne heq.symm)

/-- The value of a field of a record. -/
def field? (name : String) : Document → Option Document
  | .record fields => lookup name fields
  | _ => none

def isRecord : Document → Bool
  | .record _ => true
  | _ => false

end Document

end TaintFlow
