import TaintFlow.Fault
import TaintFlow.Position

/-
Programs as the analysis reads them. A syntax tree comes as a document, in which any field may be
missing or of the wrong kind; what the analysis would do with it is settled here, once, so that the
analysis itself works on well-shaped data. A part on which the analysis has to stop is a `fails` node
with the fault: it stops only when it gets there.
-/
namespace TaintFlow

/-- Expressions, as far as taint is concerned. -/
inductive Expr where
  /-- A variable. -/
  | name (id : String) (spot : Spot)
  | attribute (base : Expr) (attr : String) (spot : Spot)
  | subscript (container index : Expr) (spot : Spot)
  | binary (left right : Expr)
  /-- A call of `function`, on the variable `receiver` if that is not empty. -/
  | call (receiver function : String) (args : List Expr) (spot : Spot)
  | compare (left : Expr) (rest : List Expr)
  | unary (operand : Expr)
  | boolean (values : List Expr)
  /-- A node that carries no taint: a constant, or an expression that the analysis does not know. -/
  | inert
  /-- No node at all. -/
  | missing
  | fails (fault : Fault)
deriving Inhabited, Repr

/-- Targets of assignments. -/
inductive Target where
  | name (id : String)
  /-- An attribute of the variable `base`, or of some other expression. -/
  | attribute (base : Option String) (attr : String)
  /-- A part of the variable `container`, or of some other expression; `whole` is the target read as
  an expression. -/
  | subscript (container : Option String) (whole : Expr)
  | fails (fault : Fault)
deriving Inhabited, Repr

/-- Statements. -/
inductive Stmt where
  | skip
  | block (body : List Stmt)
  | assign (targets : List Target) (value : Expr) (spot : Spot)
  /-- An assignment with an annotation. -/
  | annotated (target : Target) (value : Expr) (spot : Spot)
  /-- An assignment of `target op value`; `current` is the target read as an expression. -/
  | augmented (target : Target) (current value : Expr) (spot : Spot)
  | eval (value : Expr)
  | branch (test : Expr) (body orelse : Stmt)
  | loop (test : Expr) (body orelse : Stmt)
  | each (target : Target) (iter : Expr) (body orelse : Stmt) (spot : Spot)
  | fails (fault : Fault)
deriving Inhabited, Repr

end TaintFlow
