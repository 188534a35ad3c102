/-
Places in the text of a program. Lines count from one, columns count bytes from zero.
-/
namespace TaintFlow.Source

structure Place where
  line : Nat := 1
  column : Nat := 0
deriving DecidableEq, Repr, Inhabited

namespace Place

/-- The place behind a character. -/
def after (p : Place) (c : Char) : Place :=
  if c = '\n' then { line := p.line + 1, column := 0 }
  else { p with column := p.column + c.utf8Size }

/-- The place behind characters. -/
def through (p : Place) (cs : List Char) : Place := cs.foldl after p

end Place

/-- The stretch of text between two places. -/
structure Span where
  first : Place := {}
  last : Place := {}
deriving DecidableEq, Repr, Inhabited

/-- The text that is still to be read, and where it begins. -/
structure Cursor where
  rest : List Char
  place : Place := {}
deriving Repr, Inhabited

namespace Cursor

/-- Moves over a number of characters. -/
def skip (c : Cursor) (n : Nat) : Cursor :=
  { rest := c.rest.drop n, place := c.place.through (c.rest.take n) }

/-- Moves over the characters of a class. -/
def skipWhile (c : Cursor) (p : Char → Bool) : Cursor := c.skip (c.rest.takeWhile p).length

end Cursor

end TaintFlow.Source
