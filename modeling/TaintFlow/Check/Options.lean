import TaintFlow.Check.Compare

/-
The command line of the checker: options with a value, flags, and a request for help. A long option
may be cut short as long as only one option starts so; a value may follow its option after a blank or
an equals sign, and after a short option directly.
-/
namespace TaintFlow.Check

inductive Choice where
  | help | pattern | output | target | lines | implicit | sanitizers
deriving DecidableEq, Repr

/-- The spellings of the options. -/
def spellings : List (String × Choice) :=
  [("-h", .help), ("--help", .help), ("--pattern", .pattern), ("-p", .pattern),
    ("--output", .output), ("-o", .output), ("--target", .target), ("-t", .target),
    ("--ignore_lines", .lines), ("--ignore_implicit", .implicit),
    ("--ignore_sanitizers", .sanitizers)]

def Choice.takesValue : Choice → Bool
  | .pattern | .output | .target => true
  | _ => false

/-- One word of a command line. -/
inductive Word where
  | value (s : String)
  | option (choice : Choice) (attached : Option String)
  | stranger
  | divider
deriving Repr

/-- A minus sign and a decimal number. -/
def isNegative (cs : List Char) : Bool :=
  match cs with
  | '-' :: cs =>
    let whole := cs.takeWhile Char.isDigit
    match cs.dropWhile Char.isDigit with
    | [] => !whole.isEmpty
    | '.' :: places => !places.isEmpty && places.all Char.isDigit
    | _ => false
  | _ => false

/-- A word in two at its first equals sign. -/
def cutAtEquals (cs : List Char) : List Char × Option (List Char) :=
  match cs.dropWhile (· ≠ '=') with
  | [] => (cs, none)
  | _ :: rest => (cs.takeWhile (· ≠ '='), some rest)

/-- The options that a word may stand for when it spells none of them. -/
def candidates (cs : List Char) : List (Choice × Option String) :=
  match cs with
  | '-' :: '-' :: _ =>
    let (name, attached) := cutAtEquals cs
    spellings.filterMap fun (s, c) =>
      if name.isPrefixOf s.toList then some (c, attached.map String.ofList) else none
  | _ =>
    spellings.filterMap fun (s, c) =>
      if s.toList = cs.take 2 then some (c, some (String.ofList (cs.drop 2)))
      else if cs.isPrefixOf s.toList then some (c, none)
      else none

/-- Reads one word; nothing if it may stand for two options. -/
def Word.read (s : String) : Option Word :=
  let cs := s.toList
  match cs with
  | [] | ['-'] => some (.value s)
  | '-' :: _ =>
    match spellings.lookup s with
    | some c => some (.option c none)
    | none =>
      let whole := match cutAtEquals cs with
        | (name, some attached) =>
          (spellings.lookup (String.ofList name)).map fun c => (c, some (String.ofList attached))
        | _ => none
      match whole, candidates cs with
      | some (c, attached), _ => some (.option c attached)
      | none, _ :: _ :: _ => none
      | none, [(c, attached)] => some (.option c attached)
      | none, [] => some (if isNegative cs || cs.contains ' ' then .value s else .stranger)
  | _ => some (.value s)

/-- Reads the words of a command line; behind a divider all words are values. -/
def Word.readAll : List String → Option (List Word)
  | [] => some []
  | "--" :: rest => some (.divider :: rest.map .value)
  | s :: rest => do return (← Word.read s) :: (← Word.readAll rest)

/-- What a command line asks for. -/
structure Request where
  pattern : String := ""
  output : String := ""
  target : String := ""
  tolerance : Tolerance := {}
  /-- There was a word that is no option and no value of one. -/
  astray : Bool := false
deriving Repr

def Request.give (r : Request) (choice : Choice) (v : String) : Request :=
  match choice with
  | .pattern => { r with pattern := v }
  | .output => { r with output := v }
  | .target => { r with target := v }
  | _ => r

def Request.raise (r : Request) (choice : Choice) : Request :=
  match choice with
  | .lines => { r with tolerance.lines := true }
  | .implicit => { r with tolerance.implicit := true }
  | .sanitizers => { r with tolerance.sanitizers := true }
  | _ => r

/-- How the reading of a command line ends. -/
inductive Outcome where
  | refused
  | help
  | run (r : Request)

/-- Follows the words of a command line from left to right. -/
def Outcome.ofWords (r : Request) : List Word → Outcome
  | [] => if r.astray then .refused else .run r
  | .option .help none :: _ => .help
  | .option c (some v) :: rest =>
    if c.takesValue then ofWords (r.give c v) rest else .refused
  | .option c none :: rest =>
    if c.takesValue then
      match rest with
      | .value v :: rest => ofWords (r.give c v) rest
      | _ => .refused
    else ofWords (r.raise c) rest
  | _ :: rest => ofWords { r with astray := true } rest

/-- Reads a command line. -/
def Outcome.read (words : List String) : Outcome :=
  match Word.readAll words with
  | none => .refused
  | some ws => ofWords {} ws

/-- The text of a request for help. -/
def help : String :=
  "usage: validate.py [-h] [--pattern PATTERN] [--output OUTPUT]
                   [--target TARGET] [--ignore_lines] [--ignore_implicit]
                   [--ignore_sanitizers]

options:
  -h, --help            show this help message and exit
  --pattern PATTERN, -p PATTERN
                        Validate <pattern> file
  --output OUTPUT, -o OUTPUT
                        Validate <output> file
  --target TARGET, -t TARGET
                        Check <output> vs <target_file>
  --ignore_lines        allows for mismatch in line numbers
  --ignore_implicit     allows for mismatch in the \"IMPEXP\" tag
  --ignore_sanitizers   allows for mismatch in the \"SANITIZERS\" list
"

end TaintFlow.Check
