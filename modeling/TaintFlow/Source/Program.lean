import TaintFlow.Source.Expression

/-
Reading programs. A program is a sequence of statements; a block is the rest of its line, or the
lines that are indented below it.
-/
namespace TaintFlow.Source

open Read

def updateOperators : List (String × String) :=
  [("+=", "Add"), ("-=", "Sub"), ("*=", "Mult"), ("/=", "Div"), ("//=", "FloorDiv"), ("%=", "Mod"),
    ("@=", "MatMult"), ("**=", "Pow"), ("<<=", "LShift"), (">>=", "RShift"), ("|=", "BitOr"),
    ("^=", "BitXor"), ("&=", "BitAnd")]

/-- A list of expressions with a comma behind it ends before this token. -/
def endsList (t : Token) : Bool :=
  match t.kind with
  | .newline => true
  | .sign s => s = "=" || s = ";" || s = ":"
  | .word s => s = "in"
  | _ => false

/-- The values of a statement. -/
def values (fuel : Nat) : Read Term := expressions fuel (element fuel) endsList

/-- The targets of an iteration. -/
def targets (fuel : Nat) : Read Term := do
  let t ← expressions fuel (do
    let first ← here
    if ← sign "*" then
      let t ← binary fuel 0
      return .starred (← from_ first) t
    else binary fuel 0) endsList
  if t.isTarget then return t else refuse

/-- The rest of a chain of assignments, behind its first sign: all targets and the value. -/
def chain : (fuel : Nat) → List Term → Read (List Term × Term)
  | 0, _ => refuse
  | n + 1, earlier => do
    let t ← values n
    if Read.isSign (← peek) "=" then
      if !t.isTarget then refuse
      advance
      chain n (earlier ++ [t])
    else return (earlier, t)

/-- An assignment, an annotation or an expression. -/
def expressionStatement (fuel : Nat) : Read Statement := do
  let start ← peek
  let first := start.span.first
  let t ← values fuel
  match (← peek).kind with
  | .sign "=" =>
    if !t.isTarget then refuse
    advance
    let (ts, v) ← chain fuel [t]
    return .assign (← from_ first) ts v
  | .sign ":" =>
    if !t.isPlace then refuse
    advance
    let annotation ← disjunction fuel
    let value ← if ← sign "=" then some <$> values fuel else pure none
    let simple := (t matches .name _ _) && !Read.isSign start "("
    return .annotate (← from_ first) t annotation value simple
  | _ =>
    match ← operator updateOperators with
    | some op =>
      if !t.isPlace then refuse
      let v ← values fuel
      return .update (← from_ first) t op v
    | none => return .expression (← from_ first) t

/-- A statement without a block. -/
def simple (fuel : Nat) : Read Statement := do
  let first ← here
  if ← word "pass" then return .pass (← from_ first)
  if ← word "break" then return .leave (← from_ first)
  if ← word "continue" then return .next (← from_ first)
  expressionStatement fuel

/-- The statements of a line, with semicolons between them. -/
def line : (fuel : Nat) → Read (List Statement)
  | 0 => refuse
  | n + 1 => do
    let s ← simple n
    let more ← sign ";"
    match (← peek).kind with
    | .newline =>
      advance
      return [s]
    | _ => if more then return s :: (← line n) else refuse

/-- There is no block where one must be. A token further on that is faulty in itself goes first. -/
def missingBlock {α : Type} : Read α := do
  let tokens := (← get).tokens
  match (← peek).kind with
  | .fault cause _ => throw cause
  | _ =>
    if tokens.any (fun t => t.kind matches .fault _ true) then throw .badSyntax
    else throw .badIndentation

mutual

def statement : (fuel : Nat) → Read (List Statement)
  | 0 => refuse
  | n + 1 => do
    let first ← here
    if ← word "if" then return [← branch n first]
    if ← word "while" then
      let test ← disjunction n
      let body ← block n
      let orelse ← alternative n
      return [.loop (← from_ first) test body orelse]
    if ← word "for" then
      let target ← targets n
      needWord "in"
      let iterable ← values n
      let body ← block n
      let orelse ← alternative n
      return [.each (← from_ first) target iterable body orelse]
    line n

/-- The rest of a conditional, behind its first word. -/
def branch : (fuel : Nat) → Place → Read Statement
  | 0, _ => refuse
  | n + 1, first => do
    let test ← disjunction n
    let body ← block n
    let next ← here
    let orelse ← if ← word "elif" then pure [← branch n next] else alternative n
    return .branch (← from_ first) test body orelse

/-- The block behind an else, if there is one. -/
def alternative : (fuel : Nat) → Read (List Statement)
  | 0 => refuse
  | n + 1 => do if ← word "else" then block n else return []

/-- A colon and a block. -/
def block : (fuel : Nat) → Read (List Statement)
  | 0 => refuse
  | n + 1 => do
    needSign ":"
    match (← peek).kind with
    | .newline =>
      advance
      match (← peek).kind with
      | .indent =>
        advance
        let body ← statements n
        match (← peek).kind with
        | .dedent =>
          advance
          return body
        | _ => refuse
      | _ => missingBlock
    | _ => line n

/-- Statements up to the end of the block. -/
def statements : (fuel : Nat) → Read (List Statement)
  | 0 => refuse
  | n + 1 => do
    match (← peek).kind with
    | .dedent | .ending => return []
    | _ =>
      let s ← statement n
      return s ++ (← statements n)

end

/-- A whole program. -/
def program (fuel : Nat) : Read (List Statement) := do
  let body ← statements fuel
  match (← peek).kind with
  | .ending => return body
  | _ => refuse

/-- The statements of a program. -/
def parse (text : String) : Except Fault (List Statement) :=
  let tokens := tokens text
  return (← (program (30 * (tokens.length + 2))).run { tokens }).1

/-- The tree of a program, as a document. -/
def parseDocument (text : String) : Except Fault Document := return Statement.module (← parse text)

end TaintFlow.Source
