import TaintFlow.Check.Options
import TaintFlow.Files

/-
The checker as a program: it checks the shape of a pattern file and of a report, and compares the
report with its targets. It reads named texts, and answers an exit code and what it prints.
-/
namespace TaintFlow.Check

open Document

/-- The end of a run: the exit code and the printed text. -/
structure Ending where
  code : Nat
  printed : String
deriving DecidableEq, Repr

def red (s : String) : String := "\x1b[91m" ++ s ++ "\x1b[0m"

def green (s : String) : String := "\x1b[92m" ++ s ++ "\x1b[0m"

def yellow (s : String) : String := "\x1b[93m" ++ s ++ "\x1b[0m"

/-- The word for a kind of document. -/
def kindName : Document → String
  | .null => "NoneType"
  | .bool _ => "bool"
  | .int _ => "int"
  | .float _ => "float"
  | .text _ => "str"
  | .list _ => "list"
  | .record _ => "dict"

/-- What a check says against a document. -/
def complaint (d : Document) : Fault → String
  | .noFields => "'" ++ kindName d ++ "' object has no attribute 'keys'"
  | fault => fault.message

/-- The first document that fails a check, with the complaint. -/
def firstFailure (check : Document → Except Fault Bool) : List Document → Option (Document × String)
  | [] => none
  | d :: rest => match check d with
    | .ok _ => firstFailure check rest
    | .error fault => some (d, complaint d fault)

/-- A kind of file: what it is called, and how its items are checked. -/
structure FileKind where
  one : String
  many : String
  check : Document → Except Fault Bool

def patternKind : FileKind := ⟨"Pattern", "patterns", isPattern⟩

def reportKind (edition : Edition) : FileKind := ⟨"Output", "outputs", isEntry edition⟩

/-- Checks the items of a file: what is printed, and whether all of them passed. -/
def checkFile (files : Files) (kind : FileKind) (name : String) : Except Fault (String × Bool) := do
  match ← files.document name with
  | .list items => match firstFailure kind.check items with
    | some (d, words) =>
      return ("\n" ++ red ("[-] Incorrect " ++ kind.one ++ " in file " ++ name ++ ":\n" ++ words ++
        "\n" ++ d.display) ++ "\n\n", false)
    | none =>
      return (green ("[+] All " ++ kind.many ++ " of file " ++ name ++ " are well defined") ++ "\n",
        true)
  | _ => throw (.unmet "")

/-- The text on a comparison. -/
def Comparison.describe (c : Comparison) : String :=
  "\nGOOD FLOWS\n" ++ (Document.list c.good).display ++ "\n" ++
    (if c.missing = .list [] then ""
      else "\n" ++ red ("\nMISSING FLOWS\n" ++ c.missing.display) ++ "\n") ++
    (if c.extra = [] then ""
      else "\n" ++ yellow ("\nWRONG FLOWS\n" ++ (Document.list c.extra).display) ++ "\n")

/-- Compares a report with targets. -/
def compareFiles (edition : Edition) (tolerance : Tolerance) (files : Files)
    (output target : String) : Except Fault String := do
  let entries ← (← files.document output).items
  let targets ← files.document target
  return (← compare edition tolerance entries { missing := targets }).describe

/-- The warnings on what is left out. -/
def Tolerance.warnings (t : Tolerance) : String :=
  let warning (on : Bool) (what : String) :=
    if on then yellow ("[-]WARNING: Not validating if " ++ what ++ " correct!") ++ "\n" else ""
  warning t.lines "line numbers are" ++
    warning t.implicit "the implicit/explicit tags in flows are" ++
    warning t.sanitizers "the list of sanitizers is"

/-- A step of a run: what it prints, and whether the run goes on. -/
abbrev Step := Except Fault (String × Bool)

/-- Runs steps until one of them ends the run. -/
def runSteps (printed : String) : List Step → Except Fault Ending
  | [] => .ok ⟨0, printed⟩
  | .error fault :: _ => .error fault
  | .ok (s, true) :: rest => runSteps (printed ++ s) rest
  | .ok (s, false) :: _ => .ok ⟨1, printed ++ s⟩

/-- The steps that a request asks for; a file without a name is not asked for. -/
def Request.steps (edition : Edition) (files : Files) (r : Request) : List Step :=
  (if r.pattern = "" then [] else [checkFile files patternKind r.pattern]) ++
  (if r.output = "" then [] else
    checkFile files (reportKind edition) r.output ::
    (if r.target = "" then [] else
      [checkFile files (reportKind edition) r.target,
        (compareFiles edition r.tolerance files r.output r.target).map ((·, true))]))

/-- Runs the checker on a command line. -/
def runCommandLine (edition : Edition) (words : List String) (files : Files) :
    Except Fault Ending :=
  match Outcome.read words with
  | .refused => .ok ⟨2, ""⟩
  | .help => .ok ⟨0, help⟩
  | .run r =>
    runSteps (r.tolerance.warnings ++ "\n" ++ String.ofList (List.replicate 80 '*') ++ "\n")
      (r.steps edition files)

end TaintFlow.Check
