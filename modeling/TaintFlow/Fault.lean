/-
Faults: the reasons for which loading patterns, analysing a program, writing a report or checking
one stops. Each cause is a constructor; the wording is in `Fault.message`.
-/
namespace TaintFlow

inductive Fault where
  /-- A field was asked of a value that is no record. -/
  | noFields
  /-- A value of a kind that the operation does not take. -/
  | wrongKind
  /-- A position past the end of a list or a text. -/
  | pastEnd
  /-- A key that a record or table does not have. -/
  | noKey (key : String)
  /-- An item, given by its literal, that a list does not hold. -/
  | notListed (literal : String)
  /-- A text, given by its literal, that is no decimal integer. -/
  | notDecimal (literal : String)
  /-- Fewer parts than a tuple has. -/
  | tooFew (expected got : Nat)
  /-- More parts than a tuple has. -/
  | tooMany (expected : Nat)
  /-- A text that is no document. -/
  | noDocument
  /-- A file that is not there. -/
  | noFile
  /-- Text that is no program. -/
  | badSyntax
  /-- Lines of a program that are not indented as blocks. -/
  | badIndentation
  /-- Lines of a program whose indentation depends on the width of tabs. -/
  | mixedIndentation
  /-- A requirement on a checked file that does not hold, in the checker's words. -/
  | unmet (message : String)
  /-- A loop whose unrolling was still finding new states when the limit was reached. -/
  | unsettled
deriving DecidableEq, Repr, Inhabited

namespace Fault

/-- The wording of a fault; empty where the kind of fault says it all. -/
def message : Fault → String
  | .noKey key => key
  | .notListed literal => literal ++ " is not in list"
  | .notDecimal literal => "invalid literal for int() with base 10: " ++ literal
  | .tooFew expected got =>
    s!"not enough values to unpack (expected {expected}, got {got})"
  | .tooMany expected => s!"too many values to unpack (expected {expected})"
  | .unmet message => message
  | _ => ""

end Fault

end TaintFlow
