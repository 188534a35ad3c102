import TaintFlow.Document
import TaintFlow.Source.Place

/-
The syntax trees of programs. Every part has its span in the text. A tree is written as a document
with one record for each node, which has the kind of the node, its parts and its span.
-/
namespace TaintFlow.Source

/-- Expressions. -/
inductive Term where
  | name (span : Span) (id : String)
  | constant (span : Span) (value : Document) (tag : Option String)
  | attribute (span : Span) (value : Term) (name : String)
  | subscript (span : Span) (value index : Term)
  | slice (span : Span) (lower upper step : Option Term)
  | starred (span : Span) (value : Term)
  | tuple (span : Span) (items : List Term)
  | list (span : Span) (items : List Term)
  | call (span : Span) (function : Term) (arguments : List Term)
      (keywords : List (Span × Option String × Term))
  | binary (span : Span) (left : Term) (operator : String) (right : Term)
  | unary (span : Span) (operator : String) (operand : Term)
  | logical (span : Span) (operator : String) (operands : List Term)
  | compare (span : Span) (left : Term) (operators : List String) (operands : List Term)
deriving Inhabited

namespace Term

/-- One place that can be assigned to. -/
def isPlace : Term → Bool
  | .name _ _ | .attribute _ _ _ | .subscript _ _ _ => true
  | _ => false

mutual

/-- What can be assigned to: a place, a sequence of targets, or the target of a remainder. -/
def isTarget : Term → Bool
  | .name _ _ | .attribute _ _ _ | .subscript _ _ _ => true
  | .starred _ (.starred _ _) => false
  | .starred _ t => isTarget t
  | .tuple _ items | .list _ items => areTargets items
  | _ => false

def areTargets : List Term → Bool
  | [] => true
  | t :: rest => isTarget t && areTargets rest

end

end Term

/-- Statements. -/
inductive Statement where
  | expression (span : Span) (value : Term)
  | pass (span : Span)
  | leave (span : Span)
  | next (span : Span)
  | assign (span : Span) (targets : List Term) (value : Term)
  | update (span : Span) (target : Term) (operator : String) (value : Term)
  | annotate (span : Span) (target annotation : Term) (value : Option Term) (simple : Bool)
  | branch (span : Span) (test : Term) (body orelse : List Statement)
  | loop (span : Span) (test : Term) (body orelse : List Statement)
  | each (span : Span) (target iterable : Term) (body orelse : List Statement)
deriving Inhabited

/-! ## Trees as documents -/

/-- A node without a span. -/
def bare (kind : String) (fields : List (String × Document)) : Document :=
  .record (("ast_type", .text kind) :: fields)

def node (kind : String) (span : Span) (fields : List (String × Document)) : Document :=
  bare kind (fields ++ [("lineno", .int span.first.line), ("col_offset", .int span.first.column),
    ("end_lineno", .int span.last.line), ("end_col_offset", .int span.last.column)])

/-- How a place is used. -/
def usage (stored : Bool) : String × Document :=
  ("ctx", bare (if stored then "Store" else "Load") [])

namespace Term

mutual

/-- The document of an expression; `stored` says that it is assigned to. -/
def toDocument (stored : Bool) : Term → Document
  | .name span id => node "Name" span [("id", .text id), usage stored]
  | .constant span value tag =>
    node "Constant" span [("value", value), ("kind", tag.elim .null .text)]
  | .attribute span value key =>
    node "Attribute" span [("value", toDocument false value), ("attr", .text key), usage stored]
  | .subscript span value index =>
    node "Subscript" span
      [("value", toDocument false value), ("slice", toDocument false index), usage stored]
  | .slice span lower upper step =>
    node "Slice" span [("lower", optional lower), ("upper", optional upper), ("step", optional step)]
  | .starred span value => node "Starred" span [("value", toDocument stored value), usage stored]
  | .tuple span items => node "Tuple" span [("elts", .list (documents stored items)), usage stored]
  | .list span items => node "List" span [("elts", .list (documents stored items)), usage stored]
  | .call span function arguments keywords =>
    node "Call" span [("func", toDocument false function), ("args", .list (documents false arguments)),
      ("keywords", .list (keywordDocuments keywords))]
  | .binary span left operator right =>
    node "BinOp" span
      [("left", toDocument false left), ("op", bare operator []), ("right", toDocument false right)]
  | .unary span operator operand =>
    node "UnaryOp" span [("op", bare operator []), ("operand", toDocument false operand)]
  | .logical span operator operands =>
    node "BoolOp" span [("op", bare operator []), ("values", .list (documents false operands))]
  | .compare span left operators operands =>
    node "Compare" span [("left", toDocument false left), ("ops", .list (operators.map (bare · []))),
      ("comparators", .list (documents false operands))]

def optional : Option Term → Document
  | none => .null
  | some t => toDocument false t

def documents (stored : Bool) : List Term → List Document
  | [] => []
  | t :: rest => toDocument stored t :: documents stored rest

def keywordDocuments : List (Span × Option String × Term) → List Document
  | [] => []
  | (span, key, value) :: rest =>
    node "keyword" span [("arg", key.elim .null .text), ("value", toDocument false value)] ::
      keywordDocuments rest

end

end Term

namespace Statement

mutual

def toDocument : Statement → Document
  | .expression span value => node "Expr" span [("value", value.toDocument false)]
  | .pass span => node "Pass" span []
  | .leave span => node "Break" span []
  | .next span => node "Continue" span []
  | .assign span targets value =>
    node "Assign" span [("targets", .list (Term.documents true targets)),
      ("value", value.toDocument false), ("type_comment", .null)]
  | .update span target operator value =>
    node "AugAssign" span [("target", target.toDocument true), ("op", bare operator []),
      ("value", value.toDocument false)]
  | .annotate span target annotation value simple =>
    node "AnnAssign" span [("target", target.toDocument true),
      ("annotation", annotation.toDocument false), ("value", Term.optional value),
      ("simple", .int (if simple then 1 else 0))]
  | .branch span test body orelse =>
    node "If" span [("test", test.toDocument false), ("body", .list (documents body)),
      ("orelse", .list (documents orelse))]
  | .loop span test body orelse =>
    node "While" span [("test", test.toDocument false), ("body", .list (documents body)),
      ("orelse", .list (documents orelse))]
  | .each span target iterable body orelse =>
    node "For" span [("target", target.toDocument true), ("iter", iterable.toDocument false),
      ("body", .list (documents body)), ("orelse", .list (documents orelse)),
      ("type_comment", .null)]

def documents : List Statement → List Document
  | [] => []
  | s :: rest => toDocument s :: documents rest

end

/-- The document of a program. -/
def module (body : List Statement) : Document :=
  bare "Module" [("body", .list (documents body)), ("type_ignores", .list [])]

end Statement

end TaintFlow.Source
