import TaintFlow.Source.Token
import TaintFlow.Source.Tree

/-
Reading expressions off tokens. Each level of precedence has its reader; a node spans the tokens that
were read for it, so brackets around a part belong to the whole but not to the part.
-/
namespace TaintFlow.Source

/-- The tokens that are still to be read, and where the last one that is no layout ended. -/
structure Reader where
  tokens : List Token
  last : Place := {}

/-- Steps of reading. -/
abbrev Read (α : Type) := StateT Reader (Except Fault) α

namespace Read

def peek : Read Token := return (← get).tokens.headD { kind := .ending }

/-- The token behind the next one. -/
def peekSecond : Read Token := return (← get).tokens.tail.headD { kind := .ending }

/-- The program goes wrong at the next token. -/
def refuse {α : Type} : Read α := do
  match (← peek).kind with
  | .fault cause _ => throw cause
  | .indent | .dedent => throw .badIndentation
  | _ => throw .badSyntax

/-- Moves over the next token. -/
def advance : Read Unit :=
  modify fun r => match r.tokens with
    | [] => r
    | t :: rest =>
      { tokens := rest
        last := match t.kind with
          | .newline | .indent | .dedent | .ending => r.last
          | _ => t.span.last }

/-- Where the next token begins. -/
def here : Read Place := return (← peek).span.first

/-- The span from a place to the last token. -/
def from_ (first : Place) : Read Span := return { first, last := (← get).last }

def isSign (t : Token) (s : String) : Bool :=
  match t.kind with
  | .sign s' => s' = s
  | _ => false

def isWord (t : Token) (s : String) : Bool :=
  match t.kind with
  | .word s' => s' = s
  | _ => false

/-- Takes a sign if it comes next. -/
def sign (s : String) : Read Bool := do
  if isSign (← peek) s then
    advance
    return true
  else return false

/-- Takes a word if it comes next. -/
def word (s : String) : Read Bool := do
  if isWord (← peek) s then
    advance
    return true
  else return false

def needSign (s : String) : Read Unit := do
  if !(← sign s) then refuse

def needWord (s : String) : Read Unit := do
  if !(← word s) then refuse

/-- The words that are no names. -/
def reserved : List String :=
  ["False", "None", "True", "and", "as", "assert", "async", "await", "break", "class", "continue",
    "def", "del", "elif", "else", "except", "finally", "for", "from", "global", "if", "import", "in",
    "is", "lambda", "nonlocal", "not", "or", "pass", "raise", "return", "try", "while", "with",
    "yield"]

/-- The name that a token is. -/
def nameOf (t : Token) : Option String :=
  match t.kind with
  | .word s => if reserved.contains s then none else some s
  | _ => none

def name : Read String := do
  match nameOf (← peek) with
  | some s =>
    advance
    return s
  | none => refuse

/-- Reads items until there is none. -/
def many {α : Type} (item : Read (Option α)) : (fuel : Nat) → Read (List α)
  | 0 => return []
  | fuel + 1 => do
    match ← item with
    | some a => return a :: (← many item fuel)
    | none => return []

/-- Reads an item behind a word, if the word comes next. -/
def behindWord {α : Type} (s : String) (item : Read α) : Read (Option α) := do
  if ← word s then some <$> item else return none

end Read

open Read

/-- The operator of a sign, by levels of precedence; all of them group to the left. -/
def binaryOperators : List (List (String × String)) :=
  [[("|", "BitOr")], [("^", "BitXor")], [("&", "BitAnd")], [("<<", "LShift"), (">>", "RShift")],
    [("+", "Add"), ("-", "Sub")],
    [("*", "Mult"), ("/", "Div"), ("//", "FloorDiv"), ("%", "Mod"), ("@", "MatMult")]]

def unaryOperators : List (String × String) := [("+", "UAdd"), ("-", "USub"), ("~", "Invert")]

def comparisonOperators : List (String × String) :=
  [("==", "Eq"), ("!=", "NotEq"), ("<", "Lt"), ("<=", "LtE"), (">", "Gt"), (">=", "GtE")]

/-- Takes one of some operators if it comes next. -/
def operator (table : List (String × String)) : Read (Option String) := do
  match (← peek).kind with
  | .sign s => match table.lookup s with
    | some name =>
      advance
      return some name
    | none => return none
  | _ => return none

/-- Takes a comparison operator if one comes next; some are two words. -/
def comparator : Read (Option String) := do
  if ← word "in" then return some "In"
  if ← word "is" then
    if ← word "not" then return some "IsNot" else return some "Is"
  if Read.isWord (← peek) "not" && Read.isWord (← peekSecond) "in" then
    advance
    advance
    return some "NotIn"
  operator comparisonOperators

/-- Takes quoted texts that follow each other as one. -/
def adjacent : Read (Option String) := do
  match (← peek).kind with
  | .text s _ =>
    advance
    return some s
  | _ => return none

/-- The arguments of a call so far. -/
structure Arguments where
  positional : List Term := []
  keywords : List (Span × Option String × Term) := []
  /-- A record was spread among the arguments. -/
  spread : Bool := false

mutual

/-- Alternatives: the loosest operators. -/
def disjunction : (fuel : Nat) → Read Term
  | 0 => refuse
  | n + 1 => do
    let first ← here
    let left ← conjunction n
    let rest ← many (behindWord "or" (conjunction n)) n
    if rest.isEmpty then return left
    return .logical (← from_ first) "Or" (left :: rest)

def conjunction : (fuel : Nat) → Read Term
  | 0 => refuse
  | n + 1 => do
    let first ← here
    let left ← inversion n
    let rest ← many (behindWord "and" (inversion n)) n
    if rest.isEmpty then return left
    return .logical (← from_ first) "And" (left :: rest)

def inversion : (fuel : Nat) → Read Term
  | 0 => refuse
  | n + 1 => do
    let first ← here
    if ← word "not" then
      let operand ← inversion n
      return .unary (← from_ first) "Not" operand
    else comparison n

def comparison : (fuel : Nat) → Read Term
  | 0 => refuse
  | n + 1 => do
    let first ← here
    let left ← binary n 0
    let rest ← many (do
      match ← comparator with
      | some op => return some (op, ← binary n 0)
      | none => return none) n
    if rest.isEmpty then return left
    return .compare (← from_ first) left (rest.map (·.1)) (rest.map (·.2))

/-- The binary operators of a level and of the tighter ones. -/
def binary : (fuel : Nat) → (level : Nat) → Read Term
  | 0, _ => refuse
  | n + 1, level =>
    match binaryOperators[level]? with
    | none => factor n
    | some table => do
      let first ← here
      let left ← binary n (level + 1)
      binaryRest n level table first left

def binaryRest : (fuel : Nat) → (level : Nat) → List (String × String) → Place → Term → Read Term
  | 0, _, _, _, _ => refuse
  | n + 1, level, table, first, left => do
    match ← operator table with
    | some op =>
      let right ← binary n (level + 1)
      binaryRest n level table first (.binary (← from_ first) left op right)
    | none => return left

def factor : (fuel : Nat) → Read Term
  | 0 => refuse
  | n + 1 => do
    let first ← here
    match ← operator unaryOperators with
    | some op =>
      let operand ← factor n
      return .unary (← from_ first) op operand
    | none => power n

/-- Powers group to the right, and bind tighter than a sign on the left but not on the right. -/
def power : (fuel : Nat) → Read Term
  | 0 => refuse
  | n + 1 => do
    let first ← here
    let left ← primary n first (← atom n)
    if ← sign "**" then
      let right ← factor n
      return .binary (← from_ first) left "Pow" right
    else return left

/-- What follows an atom: attributes, calls and subscripts. -/
def primary : (fuel : Nat) → Place → Term → Read Term
  | 0, _, _ => refuse
  | n + 1, first, t => do
    if ← sign "." then
      let s ← name
      primary n first (.attribute (← from_ first) t s)
    else if ← sign "(" then
      let a ← arguments n {}
      primary n first (.call (← from_ first) t a.positional a.keywords)
    else if ← sign "[" then
      let index ← subscripts n
      needSign "]"
      primary n first (.subscript (← from_ first) t index)
    else return t

def atom : (fuel : Nat) → Read Term
  | 0 => refuse
  | n + 1 => do
    let t ← peek
    match t.kind with
    | .word "None" => constant .null
    | .word "True" => constant (.bool true)
    | .word "False" => constant (.bool false)
    | .word _ =>
      let s ← name
      return .name t.span s
    | .number d => constant d
    | .text _ tagged =>
      let parts ← many adjacent n
      return .constant (← from_ t.span.first) (.text (String.join parts))
        (if tagged then some "u" else none)
    | .sign "(" =>
      advance
      group n t.span.first
    | .sign "[" =>
      advance
      let items ← elements n "]"
      return .list (← from_ t.span.first) items
    | _ => refuse
where
  constant (d : Document) : Read Term := do
    let t ← peek
    advance
    return .constant t.span d none

/-- What stands in round brackets: an expression, or a tuple. -/
def group : (fuel : Nat) → Place → Read Term
  | 0, _ => refuse
  | n + 1, first => do
    if ← sign ")" then return .tuple (← from_ first) []
    let t ← element n
    if ← sign "," then
      let items ← elements n ")"
      return .tuple (← from_ first) (t :: items)
    else if t matches .starred _ _ then refuse
    else
      needSign ")"
      return t

/-- An expression, or the items of one spread out by a star. -/
def element : (fuel : Nat) → Read Term
  | 0 => refuse
  | n + 1 => do
    let first ← here
    if ← sign "*" then
      let t ← binary n 0
      return .starred (← from_ first) t
    else disjunction n

/-- Elements up to a closing bracket; the last may have a comma behind it. -/
def elements : (fuel : Nat) → (close : String) → Read (List Term)
  | 0, _ => refuse
  | n + 1, close => do
    if ← sign close then return []
    let t ← element n
    if ← sign "," then
      return t :: (← elements n close)
    else
      needSign close
      return [t]

/-- The index of a subscript: one, or several as a tuple. -/
def subscripts : (fuel : Nat) → Read Term
  | 0 => refuse
  | n + 1 => do
    let first ← here
    let t ← subscript n
    if Read.isSign (← peek) "," then
      let rest ← many (do
        if ← sign "," then
          if Read.isSign (← peek) "]" then return none else some <$> subscript n
        else return none) n
      return .tuple (← from_ first) (t :: rest)
    else if t matches .starred _ _ then return .tuple (← from_ first) [t]
    else return t

/-- A slice, an expression, or the items of one spread out by a star. -/
def subscript : (fuel : Nat) → Read Term
  | 0 => refuse
  | n + 1 => do
    let first ← here
    if ← sign "*" then
      let t ← disjunction n
      return .starred (← from_ first) t
    else if ← sign ":" then slice n first none
    else
      let t ← disjunction n
      if ← sign ":" then slice n first (some t) else return t

/-- The rest of a slice, behind its first colon. -/
def slice : (fuel : Nat) → Place → Option Term → Read Term
  | 0, _, _ => refuse
  | n + 1, first, lower => do
    let upper ← bound n
    let step ← if ← sign ":" then bound n else pure none
    return .slice (← from_ first) lower upper step

/-- A bound of a slice, which may be left out. -/
def bound : (fuel : Nat) → Read (Option Term)
  | 0 => refuse
  | n + 1 => do
    match (← peek).kind with
    | .sign ":" | .sign "]" | .sign "," => return none
    | _ => some <$> disjunction n

/-- The arguments of a call up to the closing bracket. A plain argument stands before all keywords, and
behind a record that is spread out only keywords and records follow. -/
def arguments : (fuel : Nat) → Arguments → Read Arguments
  | 0, _ => refuse
  | n + 1, a => do
    if ← sign ")" then return a
    let first ← here
    let a ←
      if Read.isSign (← peek) "*" then
        if a.spread then refuse
        advance
        let t ← disjunction n
        pure { a with positional := a.positional ++ [.starred (← from_ first) t] }
      else if ← sign "**" then
        let t ← disjunction n
        pure { a with keywords := a.keywords ++ [(← from_ first, none, t)], spread := true }
      else if (nameOf (← peek)).isSome && Read.isSign (← peekSecond) "=" then
        let s ← name
        advance
        let t ← disjunction n
        pure { a with keywords := a.keywords ++ [(← from_ first, some s, t)] }
      else
        let t ← disjunction n
        if !a.keywords.isEmpty then refuse
        pure { a with positional := a.positional ++ [t] }
    if ← sign "," then arguments n a
    else
      needSign ")"
      return a

end

/-- Expressions, as a tuple if commas stand between them or behind one. -/
def expressions (fuel : Nat) (item : Read Term) (stops : Token → Bool) : Read Term := do
  let first ← here
  let t ← item
  if Read.isSign (← peek) "," then
    let rest ← many (do
      if ← sign "," then
        if stops (← peek) then return none else some <$> item
      else return none) fuel
    return .tuple (← from_ first) (t :: rest)
  else return t

end TaintFlow.Source
