import TaintFlow.Document.Literal
import TaintFlow.Syntax

/-
From documents to programs. A document is read in every role that the analysis can give it: as an
expression, as a sequence of expressions, as a target, as a sequence of targets, as a statement and
as a called function. A record is read from the readings of its fields, so reading goes once through
the document.

A field that is missing reads as an empty record or an empty list. A sequence is a list, the
characters of a text or the keys of a record; anything else stops the analysis.
-/
namespace TaintFlow

/-- A document in each of its roles. -/
structure Reading where
  isNode : Bool := false
  asVariable : Option String := none
  expr : Expr := .missing
  exprs : List Expr := [.fails .wrongKind]
  target : Target := .fails .noFields
  targets : List Target := [.fails .wrongKind]
  stmt : Stmt := .skip
  callee : Except Fault (String × String) := .ok ("", "")

namespace Reading

/-- The reading of a text, or of the keys of a record: things without fields. -/
def ofKeys (count : Nat) : Reading :=
  { exprs := List.replicate count .missing, targets := List.replicate count (.fails .noFields) }

def ofList (items : List Reading) : Reading :=
  { exprs := items.map (·.expr)
    targets := items.map (·.target)
    stmt := .block (items.map (·.stmt)) }

/-- A record without fields. -/
def emptyRecord : Reading :=
  { ofKeys 0 with isNode := true, expr := .inert, target := .fails .wrongKind }

/-- A field of a list of readings. -/
def child (kids : List (String × Reading)) (name : String) : Reading :=
  ((kids.find? (·.1 = name)).map (·.2)).getD emptyRecord

/-- A field that holds a sequence. -/
def children (kids : List (String × Reading)) (name : String) : Reading :=
  ((kids.find? (·.1 = name)).map (·.2)).getD (ofList [])

/-- A name; a missing one is empty. -/
def nameOf (fields : List (String × Document)) (name : String) : String :=
  ((Document.lookup name fields).getD (.text "")).display

/-- An integer field; a missing one is zero. -/
def intOf (fields : List (String × Document)) (name : String) : Int :=
  match Document.lookup name fields with
  | some (.int i) => i
  | some (.bool true) => 1
  | _ => 0

def spotOf (fields : List (String × Document)) : Spot :=
  { line := intOf fields "lineno", column := intOf fields "col_offset" }

/-- A list or a record cannot be looked up in a table. -/
def isKey : Option Document → Bool
  | some (.list _) | some (.record _) => false
  | _ => true

/-- The variable that a node of the given type is. -/
def variableOf (type : String) (fields : List (String × Document)) : Option String :=
  if type = "Name" then some (nameOf fields "id") else none

def exprOf (type : String) (fields : List (String × Document)) (kids : List (String × Reading)) :
    Expr :=
  match type with
  | "Name" =>
    if isKey (Document.lookup "id" fields) then .name (nameOf fields "id") (spotOf fields)
    else .fails .wrongKind
  | "Attribute" => .attribute (child kids "value").expr (nameOf fields "attr") (spotOf fields)
  | "Subscript" => .subscript (child kids "value").expr (child kids "slice").expr (spotOf fields)
  | "BinOp" => .binary (child kids "left").expr (child kids "right").expr
  | "Call" =>
    match (child kids "func").callee with
    | .ok (receiver, function) =>
      .call receiver function (children kids "args").exprs (spotOf fields)
    | .error fault => .fails fault
  | "Compare" => .compare (child kids "left").expr (children kids "comparators").exprs
  | "UnaryOp" => .unary (child kids "operand").expr
  | "BoolOp" => .boolean (children kids "values").exprs
  | _ => .inert

def targetOf (type : String) (fields : List (String × Document)) (kids : List (String × Reading)) :
    Target :=
  match type with
  | "Name" =>
    if isKey (Document.lookup "id" fields) then .name (nameOf fields "id") else .fails .wrongKind
  | "Attribute" =>
    if (child kids "value").isNode then
      .attribute (child kids "value").asVariable (nameOf fields "attr")
    else .fails .noFields
  | "Subscript" => .subscript (child kids "value").asVariable (exprOf type fields kids)
  | _ => .fails .wrongKind

def stmtOf (type : String) (fields : List (String × Document)) (kids : List (String × Reading)) :
    Stmt :=
  match type with
  | "Module" => (children kids "body").stmt
  | "Assign" => .assign (children kids "targets").targets (child kids "value").expr (spotOf fields)
  | "AnnAssign" => .annotated (child kids "target").target (child kids "value").expr (spotOf fields)
  | "AugAssign" =>
    .augmented (child kids "target").target (child kids "target").expr (child kids "value").expr
      (spotOf fields)
  | "Expr" => .eval (child kids "value").expr
  | "If" =>
    .branch (child kids "test").expr (children kids "body").stmt (children kids "orelse").stmt
  | "While" =>
    .loop (child kids "test").expr (children kids "body").stmt (children kids "orelse").stmt
  | "For" =>
    .each (child kids "target").target (child kids "iter").expr (children kids "body").stmt
      (children kids "orelse").stmt (spotOf fields)
  | _ => .skip

/-- The receiver and the name of a called function. -/
def calleeOf (type : String) (fields : List (String × Document)) (kids : List (String × Reading)) :
    Except Fault (String × String) :=
  match type with
  | "Name" => .ok ("", nameOf fields "id")
  | "Attribute" =>
    if (child kids "value").isNode then
      .ok ((child kids "value").asVariable.getD "", nameOf fields "attr")
    else .error .noFields
  | _ => .ok ("", "")

/-- A record, from its fields and their readings. -/
def ofRecord (fields : List (String × Document)) (kids : List (String × Reading)) : Reading :=
  match Document.lookup "ast_type" fields with
  | some (.list _) | some (.record _) =>
    { ofKeys fields.length with
      isNode := true
      expr := .fails .wrongKind
      target := .fails .wrongKind
      stmt := .fails .wrongKind }
  | type =>
    let type := match type with
      | some (.text s) => s
      | _ => ""
    { ofKeys fields.length with
      isNode := true
      asVariable := variableOf type fields
      expr := exprOf type fields kids
      target := targetOf type fields kids
      stmt := stmtOf type fields kids
      callee := calleeOf type fields kids }

mutual

/-- Reads a document in all its roles. -/
def ofDocument : Document → Reading
  | .text s => .ofKeys s.length
  | .list items => .ofList (ofItems items)
  | .record fields => .ofRecord fields (ofFields fields)
  | .null | .bool _ | .int _ | .float _ => {}

def ofItems : List Document → List Reading
  | [] => []
  | d :: rest => ofDocument d :: ofItems rest

def ofFields : List (String × Document) → List (String × Reading)
  | [] => []
  | (k, d) :: rest => (k, ofDocument d) :: ofFields rest

end

end Reading

/-- The statement that a document is. -/
def Stmt.ofDocument (d : Document) : Stmt := (Reading.ofDocument d).stmt

/-- The expression that a document is. -/
def Expr.ofDocument (d : Document) : Expr := (Reading.ofDocument d).expr

end TaintFlow
