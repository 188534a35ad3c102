import TaintFlow.Analysis.Statement
import TaintFlow.Description
import TaintFlow.PatternFile
import TaintFlow.Syntax.Reading

/-
Sessions: an analysis that goes on step by step. A session holds the paths that are followed and the
report; each step moves them on or looks at them. A step that fails leaves what it did before.
-/
namespace TaintFlow

/-- An analysis in progress. -/
structure Session where
  edition : Edition
  limit : Nat
  paths : List Path
  report : Report := {}

namespace Session

/-- A session at the start of a program. -/
def start (edition : Edition) (limit : Nat) (patterns : List Pattern) : Session :=
  { edition, limit, paths := [Path.start patterns] }

/-- Analyses a piece of a program on all paths. -/
def run [SetOrder] (s : Session) (program : Stmt) : Option Fault × Session :=
  let r := program.analyse s.edition s.limit s.paths s.report
  match r.paths? with
  | .ok paths => (none, { s with paths, report := r.report })
  | .error fault => (some fault, { s with paths := r.given, report := r.report })

def path (s : Session) (index : Nat) : Except Fault Path :=
  (s.paths[index]?).elim (.error .pastEnd) .ok

def setPath (s : Session) (index : Nat) (p : Path) : Session :=
  { s with paths := s.paths.set index p }

/-- Runs steps of the analysis on one path. -/
def onPath {α : Type} (s : Session) (index : Nat) (step : Eval α) : Except Fault α × Session :=
  match s.path index with
  | .error fault => (.error fault, s)
  | .ok p =>
    let (result, w) := step.run ⟨p, s.report⟩
    (result, { s.setPath index w.path with report := w.report })

/-- The taint of an expression on one path. -/
def evaluate [SetOrder] (s : Session) (index : Nat) (e : Expr) (context : Context) :
    Except Fault Taint × Session :=
  s.onPath index (e.evaluate s.edition context)

/-- Puts the taint of an expression on the control stack of a path. -/
def push [SetOrder] (s : Session) (index : Nat) (e : Expr) (context : Context) : Except Fault Unit × Session :=
  s.onPath index do
    let m ← e.evaluate s.edition context
    Eval.setPath ((← Eval.path).push m)

def pop (s : Session) (index : Nat) : Except Fault Unit × Session :=
  s.onPath index do Eval.setPath ((← Eval.path).pop)

/-- Adds a copy of a path. -/
def copy (s : Session) (index : Nat) : Except Fault Nat × Session :=
  match s.path index with
  | .error fault => (.error fault, s)
  | .ok p =>
    let s := { s with paths := s.paths ++ [p.fork] }
    (.ok s.paths.length, s)

def same (s : Session) (a b : Nat) : Except Fault Bool := do
  return (← s.path a).same (← s.path b)

end Session

/-- Analyses a whole program: the session after it, and the fault if one stopped it. -/
def analyseProgram [SetOrder] (edition : Edition) (limit : Nat) (patterns : List Pattern) (program : Stmt) :
    Option Fault × Session :=
  (Session.start edition limit patterns).run program

end TaintFlow
