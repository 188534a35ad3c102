import TaintFlow.Document.Printer
import TaintFlow.Files
import TaintFlow.Session
import TaintFlow.Source.Program

/-
The analyser as a program. It reads a program and a pattern file, analyses the program, and writes the
report to a file that is named after the program.
-/
namespace TaintFlow.CommandLine

/-- What is said when the files are not given. -/
def usage : String := "USAGE: python3 py_analyser.py <file.py> <file.json>\n"

/-- How a run ends: it was asked wrongly, or it says its last words and writes a file. -/
inductive Outcome where
  | usage
  | done (words : String) (name content : String)
deriving DecidableEq, Repr

/-- The last words of a run. -/
def summary (paths : Nat) : String :=
  "[DEBUG] Analysis complete. Final number of execution paths: " ++ toString paths

/-- The name of the file for the report on a program. -/
def outputName (program : String) : String := Files.stem program ++ ".output.json"

/-- Analyses the program in a file under the patterns in another. A tree takes the place of the
program's own. -/
def analyse [SetOrder] (edition : Edition) (limit : Nat) (program patterns : String) (files : Files)
    (tree? : Option Document) : Except Fault Outcome := do
  let code ← files.text program
  let tree ← match tree? with
    | some tree => .ok tree
    | none => Source.parseDocument code
  let entries ← PatternFile.read edition (← files.text patterns)
  let (fault?, s) :=
    analyseProgram edition limit (entries.map (·.pattern)) (Stmt.ofDocument tree)
  match fault? with
  | some fault => throw fault
  | none =>
    let report ← s.report.toDocument edition
    return .done (summary s.paths.length) (outputName program) report.print

/-- Runs the analyser on a command line. -/
def run [SetOrder] (edition : Edition) (limit : Nat) (arguments : List String) (files : Files)
    (tree? : Option Document) : Except Fault Outcome :=
  match arguments with
  | [program, patterns] => analyse edition limit program patterns files tree?
  | _ => .ok .usage

end TaintFlow.CommandLine
