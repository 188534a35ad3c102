import TaintFlow.Files
import TaintFlow.Position
import TaintFlow.Source.Program
import TaintFlow.Trace

/-
A gallery of small programs, one for each thing the analysis has to deal with. A tour of the gallery
saves the tree of each program beside it, and then shows the traces of one with a loop.
-/
namespace TaintFlow.Gallery

/-- The programs of the gallery. -/
def programs : List String :=
  ["./slices/1-basic-flow/1a-basic-flow.py", "./slices/1-basic-flow/1b-basic-flow.py",
    "./slices/2-expr-binary-ops/2-expr-binary-ops.py", "./slices/3-expr/3a-expr-func-calls.py",
    "./slices/3-expr/3b-expr-func-calls.py", "./slices/3-expr/3c-expr-attributes.py",
    "./slices/3-expr/3d-expr-subscript.py", "./slices/4-conds-branching/4a-conds-branching.py",
    "./slices/4-conds-branching/4b-conds-branching.py", "./slices/5-loops/5a-loops-unfolding.py",
    "./slices/5-loops/5b-loops-unfolding.py", "./slices/5-loops/5c-loops-unfolding.py",
    "./slices/6-sanitization/6a-sanitization.py", "./slices/6-sanitization/6b-sanitization.py",
    "./slices/7-conds-implicit/7-conds-implicit.py",
    "./slices/8-loops-implicit/8-loops-implicit.py",
    "./slices/9-regions-guards/9-regions-guards.py"]

/-- The program whose traces are shown. -/
def shown : String := "./slices/5-loops/5b-loops-unfolding.py"

/-- The most rounds of a loop in a trace. -/
def rounds : Nat := 5

/-- What a tour prints, and the trees it saves. -/
structure Tour where
  printed : String := ""
  saved : List (String × Document) := []

/-- The file for the tree of a program. -/
def treeName (program : String) : String :=
  Files.folder program ++ "/" ++ Files.stem program ++ ".ast-to.json"

def treeOf (files : Files) (program : String) : Except Fault Document := do
  Source.parseDocument (← files.text program)

/-- Saves the tree of a program. -/
def visit (files : Files) (t : Tour) (program : String) : Except Fault Tour := do
  let tree ← treeOf files program
  return { printed := t.printed ++ "Analysing: " ++ program ++ " ...\n\n"
           saved := t.saved ++ [(treeName program, tree)] }

/-- A tour of the gallery. The scoped edition has no gallery. -/
def run (edition : Edition) (files : Files) : Except Fault Tour :=
  match edition with
  | .scoped => .ok {}
  | .plain => do
    let t ← programs.foldlM (visit files) {}
    let traces ← Trace.ofDocument rounds (← treeOf files shown)
    return { t with printed := t.printed ++ Trace.describeAll traces }

end TaintFlow.Gallery
