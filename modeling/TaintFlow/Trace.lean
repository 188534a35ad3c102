import TaintFlow.Trace.Phrase

/-
Traces: the ways through a program, each as the list of its steps in words. A branch goes either way;
a loop is left out, or runs once, twice, and so on up to a bound. Only assignments and expression
statements are steps, with values that are names, constants, calls, binary operations or subscripts;
anything else in a program is a fault.
-/
namespace TaintFlow

/-- The steps of one way through a program. -/
abbrev Trace := List String

namespace Trace

/-- The types of the values that a step can have. -/
def valueTypes : List String := ["Name", "Constant", "Call", "BinOp", "Subscript"]

/-- The value of a step in words. -/
def value (fields : List (String × Document)) : Except Fault String := do
  let v := (Document.lookup "value" fields).getD (.record [])
  if !v.isRecord then throw .noFields
  match (v.field? "ast_type").getD .null with
  | .text type => if type ∈ valueTypes then return (← v.words).display else throw .wrongKind
  | _ => throw .wrongKind

/-- The first target of an assignment in words. -/
def target (fields : List (String × Document)) : Except Fault String := do
  let targets := (Document.lookup "targets" fields).getD .null
  if targets.isTruthy then return (← (← targets.item 0).words).display else return "None"

/-- The test of a branch or a loop in words. -/
def test (fields : List (String × Document)) : Except Fault String := do
  return (← ((Document.lookup "test" fields).getD (.record [])).words).display

/-- Every way through one part followed by every way through the next. -/
def sequence (first second : List Trace) : List Trace :=
  first.flatMap fun t => second.map (t ++ ·)

/-- The ways through a branch. -/
def branch (test : String) (body orelse : List Trace) : List Trace :=
  body.map (("if " ++ test ++ " (True):") :: ·) ++ orelse.map (("if " ++ test ++ " (False):") :: ·)

/-- The ways through iterations `first + 1`, …, `first + n` of a loop, the choice for the first
iteration varying slowest. -/
def iterations (test : String) (body : List Trace) : (n first : Nat) → List Trace
  | 0, _ => [[]]
  | n + 1, first =>
    sequence (body.map (("while " ++ test ++ s!" (True, iter: {first + 1}):") :: ·))
      (iterations test body n (first + 1))

/-- The ways through a loop with `n` iterations. -/
def unrolled (test : String) (body : List Trace) (n : Nat) : List Trace :=
  (iterations test body n 0).map
    (· ++ ["while " ++ test ++ s!" (False, exit after {n} iterations):"])

/-- The ways through a loop with one up to `bound` iterations, and after them those that skip it. -/
def loop (bound : Nat) (test : String) (body orelse : List Trace) : List Trace :=
  (List.range bound).flatMap (fun i => unrolled test body (i + 1)) ++ orelse

/-- The traces of a field that holds statements. -/
def child (kids : List (String × Except Fault (List Trace))) (name : String) :
    Except Fault (List Trace) :=
  ((kids.find? (·.1 = name)).map (·.2)).getD (.ok [[]])

def ofNode (bound : Nat) (type : String) (fields : List (String × Document))
    (kids : List (String × Except Fault (List Trace))) : Except Fault (List Trace) :=
  match type with
  | "Module" => child kids "body"
  | "Assign" => do
    let target ← target fields
    return [[target ++ " := " ++ (← value fields)]]
  | "Expr" => do return [[← value fields]]
  | "If" => do
    let test ← test fields
    let body ← child kids "body"
    return branch test body (← child kids "orelse")
  | "While" => do
    let test ← test fields
    let body ← child kids "body"
    return loop bound test body (← child kids "orelse")
  | _ => .error .wrongKind

mutual

/-- The traces of a program, with loops of at most `bound` iterations. -/
def ofDocument (bound : Nat) : Document → Except Fault (List Trace)
  | .list items => ofItems bound items
  | .record fields =>
    match (Document.lookup "ast_type" fields).getD .null with
    | .text type => ofNode bound type fields (ofFields bound fields)
    | _ => .error .wrongKind
  | .null | .bool _ | .int _ | .float _ | .text _ => .error .noFields

def ofItems (bound : Nat) : List Document → Except Fault (List Trace)
  | [] => .ok [[]]
  | d :: rest => do
    let first ← ofDocument bound d
    return sequence first (← ofItems bound rest)

def ofFields (bound : Nat) :
    List (String × Document) → List (String × Except Fault (List Trace))
  | [] => []
  | (k, d) :: rest => (k, ofDocument bound d) :: ofFields bound rest

end

/-- A trace with its number. -/
def describe (number : Nat) (t : Trace) : String := s!"{number}. " ++ "\n -> ".intercalate t ++ "\n"

/-- Traces with their numbers, from one on. -/
def describeAll (traces : List Trace) : String :=
  String.join ((traces.zipIdx 1).map fun (t, i) => describe i t)

end Trace

namespace Document

/-- The line for a node of an outline. -/
def outlineNode (fields : List (String × Document)) : String :=
  let type := (lookup "ast_type" fields).getD .null
  if type.isTruthy then
    "ast_type: " ++ type.display ++ ", lineno: " ++
      ((lookup "lineno" fields).getD (.text "No lineno")).display ++ "\n"
  else ""

mutual

/-- The types and lines of all nodes of a tree, a node before its fields. -/
def outline : Document → String
  | .record fields => outlineNode fields ++ outlineFields fields
  | .list items => outlineItems items
  | .null | .bool _ | .int _ | .float _ | .text _ => ""

def outlineItems : List Document → String
  | [] => ""
  | d :: rest => outline d ++ outlineItems rest

def outlineFields : List (String × Document) → String
  | [] => ""
  | (_, d) :: rest => outline d ++ outlineFields rest

end

end Document

end TaintFlow
