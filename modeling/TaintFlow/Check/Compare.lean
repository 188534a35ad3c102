import TaintFlow.Check.Shape

/-
Comparing two reports. Entries are the same if their names agree up to the number, and source, sink
and flows are the same; the order of flows and of sanitizers does not matter. Lines, tags or sanitizers
may be left out of the comparison.
-/
namespace TaintFlow.Check

open Document

/-- What a comparison leaves out. -/
structure Tolerance where
  lines : Bool := false
  implicit : Bool := false
  sanitizers : Bool := false
deriving DecidableEq, Repr, Inhabited

variable (edition : Edition) (tolerance : Tolerance)

/-- Two names with their places are the same. The scoped edition does not compare columns. -/
def sameInstruction (a b : Document) : Except Fault Bool := do
  if tolerance.lines then return alike (← a.item 0) (← b.item 0)
  match edition with
  | .plain => return alike a b
  | .scoped =>
    if alike (← a.item 0) (← b.item 0) then return alike (← a.item 1) (← b.item 1)
    else return false

/-- Takes the first item that a test accepts out of a list. -/
def takeOut (test : Document → Except Fault Bool) :
    List Document → Except Fault (Option (List Document))
  | [] => return none
  | x :: rest => do
    if ← test x then return some rest
    return (← takeOut test rest).map (x :: ·)

/-- Pairs off two sequences: each item of the first takes out the first item of the second that is the
same. `open₁` and `open₂` say that a sequence is a text, which does not count as empty when it has no
characters left. -/
def pairOff (same : Document → Document → Except Fault Bool) (open₁ open₂ : Bool) :
    List Document → List Document → Except Fault Bool
  | [], [] => if open₁ then (if open₂ then throw .pastEnd else return false) else return !open₂
  | [], _ :: _ => if open₁ then throw .pastEnd else return false
  | x :: xs, ys => do
    match ← takeOut (same x) ys with
    | some rest => pairOff same open₁ open₂ xs rest
    | none => return false

/-- Two sequences have the same items in some order. -/
def samePairs (same : Document → Document → Except Fault Bool) (a b : Document) :
    Except Fault Bool :=
  match a, b with
  | .list [], .list ys => return ys.isEmpty
  | .list [], _ => return false
  | _, .list [] => return false
  | .list xs, .list ys => pairOff same false false xs ys
  | .list xs, .text s => pairOff same false true xs (s.toList.map ofChar)
  | .text s, .list ys => pairOff same true false (s.toList.map ofChar) ys
  | .text s, .text t => pairOff same true true (s.toList.map ofChar) (t.toList.map ofChar)
  | a, b => do
    let x ← a.item 0
    match ← takeOut (same x) (← b.items) with
    | some _ => throw .wrongKind
    | none => return false

/-- Two lists of sanitizers are the same in some order. -/
def sameSanitizers (a b : Document) : Except Fault Bool :=
  if tolerance.sanitizers then return true else samePairs (sameInstruction edition tolerance) a b

/-- Two flows have the same tag and the same sanitizers. -/
def sameFlow (a b : Document) : Except Fault Bool := do
  if !tolerance.implicit then
    if !alike (← a.item 0) (← b.item 0) then return false
  sameSanitizers edition tolerance (← a.item 1) (← b.item 1)

/-- Two lists of flows are the same in some order. -/
def sameFlows (a b : Document) : Except Fault Bool := samePairs (sameFlow edition tolerance) a b

/-- A name without its number: what stands before the last underscore. -/
def baseName (s : String) : String :=
  match s.splitOn "_" with
  | [whole] => whole
  | parts => "_".intercalate parts.dropLast

/-- Two names agree up to their numbers. -/
def sameName (a b : Document) : Except Fault Bool :=
  match a, b with
  | .text s, .text t => return baseName s = baseName t
  | _, _ => throw .noFields

/-- Two entries of reports are the same. -/
def sameEntry (a b : Document) : Except Fault Bool := do
  if !(← sameName (← a.get "vulnerability") (← b.get "vulnerability")) then return false
  if !(← sameInstruction edition tolerance (← a.get "source") (← b.get "source")) then return false
  if !(← sameInstruction edition tolerance (← a.get "sink") (← b.get "sink")) then return false
  sameFlows edition tolerance (← a.get "flows") (← b.get "flows")

/-- Drops the first item that is alike. -/
def erase (d : Document) : List Document → List Document
  | [] => []
  | x :: rest => if alike x d then rest else x :: erase d rest

/-- The first item of a list that is the same entry. -/
def findEntry (entry : Document) : List Document → Except Fault (Option Document)
  | [] => return none
  | t :: rest => do
    if ← sameEntry edition tolerance entry t then return some t
    findEntry entry rest

/-- Looks an entry up among targets, and takes it out of them. -/
def matchTarget (entry : Document) (targets : Document) : Except Fault (Bool × Document) := do
  match ← findEntry edition tolerance entry (← targets.items), targets with
  | none, _ => return (false, targets)
  | some t, .list items => return (true, .list (erase t items))
  | some _, _ => throw .noFields

/-- The outcome of a comparison: the entries with a target, the entries without, and the targets
without an entry. -/
structure Comparison where
  good : List Document := []
  extra : List Document := []
  missing : Document

/-- Compares the entries of a report with targets, one after the other. -/
def compare : List Document → Comparison → Except Fault Comparison
  | [], c => return c
  | entry :: rest, c => do
    let (found, missing) ← matchTarget edition tolerance entry c.missing
    compare rest
      (if found then { c with good := c.good ++ [entry], missing }
       else { c with extra := c.extra ++ [entry], missing })

end TaintFlow.Check
