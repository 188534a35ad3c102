import TaintFlow.Check.CommandLine
import TaintFlow.CommandLine
import TaintFlow.Gallery

/-
The command line. Two files ask for an analysis, `check` for a check of files, and `tour` for a tour
of the gallery; `--scoped` in front of them chooses the scoped edition.
-/
namespace TaintFlow.Main

/-- The most rounds of a loop. -/
def limit : Nat := 100000

/-- Reads those of the named files that there are. -/
def load (names : List String) : IO Files := do
  let mut entries := []
  for name in names do
    try
      entries := (Files.normal name, ← IO.FS.readFile name) :: entries
    catch _ => pure ()
  return ⟨entries⟩

/-- Says what went wrong. -/
def complain (fault : Fault) : IO UInt32 := do
  IO.eprintln s!"{repr fault}"
  return 1

def analyse (edition : Edition) (arguments : List String) : IO UInt32 := do
  match CommandLine.run edition limit arguments (← load arguments) none with
  | .error fault => complain fault
  | .ok .usage =>
    IO.print CommandLine.usage
    return 1
  | .ok (.done words name content) =>
    IO.println words
    IO.FS.createDirAll "output"
    IO.FS.writeFile ("output/" ++ name) content
    return 0

def check (edition : Edition) (arguments : List String) : IO UInt32 := do
  let names := match Check.Outcome.read arguments with
    | .run r => [r.pattern, r.output, r.target]
    | _ => []
  match Check.runCommandLine edition arguments (← load names) with
  | .error fault => complain fault
  | .ok ending =>
    IO.print ending.printed
    return ending.code.toUInt32

def tour (edition : Edition) : IO UInt32 := do
  match Gallery.run edition (← load Gallery.programs) with
  | .error fault => complain fault
  | .ok t =>
    IO.print t.printed
    for (name, tree) in t.saved do
      IO.FS.writeFile name tree.print
    return 0

def run (edition : Edition) (arguments : List String) : IO UInt32 :=
  match arguments with
  | "check" :: rest => check edition rest
  | ["tour"] => tour edition
  | _ => analyse edition arguments

end TaintFlow.Main

def main (arguments : List String) : IO UInt32 :=
  match arguments with
  | "--scoped" :: rest => TaintFlow.Main.run .scoped rest
  | _ => TaintFlow.Main.run .plain arguments
