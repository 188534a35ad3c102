import TaintFlow.Session
import TaintFlow.Source.Program

/-
Workloads: programs and patterns of any size, to run the analysis on. In each of them one tainted
value reaches sinks, so that the findings can be counted beforehand; both editions find the same.
-/
namespace TaintFlow.Workload

/-- A program with the patterns to look for in it. -/
structure Task where
  program : String
  patterns : List Pattern

/-- The function whose result is tainted. -/
def source : String := "read"

/-- Patterns `V0`, `V1`, … that differ in their names only. -/
def patterns (count : Nat) (sinks : List String) : List Pattern :=
  (List.range count).map fun i =>
    { name := "V" ++ toString i, sources := [source], sinks, modes := [], implicit := false }

/-- A program that reads a tainted value and goes on with the given lines. -/
def programOf (lines : List String) : String :=
  "\n".intercalate (("x = " ++ source ++ "()") :: lines) ++ "\n"

/-- The forms of expression in which a tainted value is handed on. -/
def forms : List String := ["x + 1", "-x", "x and 1", "x < 1", "f(x)"]

/-- At least `size` expressions that are handed to a sink, in whole rounds of all forms. -/
def expressions (size : Nat) : Task :=
  let round := forms.map fun e => "send(" ++ e ++ ")"
  let rounds := (size + forms.length - 1) / forms.length
  { program := programOf (List.replicate rounds round).flatten, patterns := patterns 2 ["send"] }

/-- The sinks that every pattern of a crowd knows. -/
def sharedSinks : List String := ["send", "show", "store"]

/-- A value that reaches the same sinks under `size` patterns. -/
def crowd (size : Nat) : Task :=
  { program := programOf (sharedSinks.map (· ++ "(x)")), patterns := patterns size sharedSinks }

/-- The names of the findings of a task, in the order of texts. -/
def Task.findings [SetOrder] (t : Task) (edition : Edition) (limit : Nat) : Except Fault (List String) := do
  let tree ← Source.parseDocument t.program
  let (fault?, s) := analyseProgram edition limit t.patterns (Stmt.ofDocument tree)
  match fault? with
  | some fault => throw fault
  | none => return ((← s.report.entries).map (·.name)).mergeSort fun a b => decide (a ≤ b)

end TaintFlow.Workload
