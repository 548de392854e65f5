import MiniTemplate.Script.Grammar.Statement
import MiniTemplate.Script.Lowering

/-!
# Reading expressions

`Script.parse` reads the longest expression at the start of a text and lowers it.
One token after the expression is read as well, and must be well formed; the text
beyond it is not looked at. A text that is no expression is malformed, even if it
also holds a construct that expression trees do not hold.
-/

namespace MiniTemplate.Script

/-- The nested parsers up to a depth. -/
def nested : Nat → Nested
  | 0 => .none
  | depth + 1 =>
    let r := nested depth
    { assignment := Parser.assignment r
      binary := Parser.binary r
      unary := Parser.unary r
      operand := Parser.operand r
      member := Parser.member r
      binding := Parser.binding r
      statement := Parser.statement r }

/-- A depth that no text exceeds: each nesting but a statement takes a token. -/
def depthBound (text : List Char) : Nat := 2 * text.length + 4

/-- **The expression at the start of a text** as it is written, if it is free of
errors. -/
def phrase? (text : List Char) : Option Phrase := do
  let start ← Stream.start? text
  let (p, s) ← Parser.expression (nested (depthBound text)) {} start
  if s.flawed || s.unset != 0 then none else return p

/-- Why a text has no expression tree. -/
inductive ParseError where
  /-- The text is not an expression. -/
  | malformed
  /-- The expression holds a construct that trees do not hold. -/
  | unsupported (construct : Construct)
  deriving DecidableEq, Repr

/-- **The expression tree** of a text. -/
def parse (text : String) : Except ParseError Expr :=
  match phrase? text.toList with
  | none => .error .malformed
  | some p => p.lower.mapError .unsupported

end MiniTemplate.Script
