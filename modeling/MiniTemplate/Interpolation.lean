import MiniTemplate.Text.Blank
import MiniTemplate.Text.Quoted

/-!
# Interpolated text

A text may hold expressions between double braces. `Piece.split` cuts it into
literal pieces and bindings; `detect` spells the whole as one expression that adds
up the pieces.

A binding opens at the first double brace and closes at the first one at least one
character later; closing braces right after that belong to its expression, so
that an object at its end stays whole.
-/

namespace MiniTemplate

/-- A piece of an interpolated text. -/
inductive Piece where
  | literal (text : List Char)
  /-- An expression, and the closing braces that were found after its end. -/
  | binding (body spill : List Char)
  deriving DecidableEq, Repr

namespace Piece

/-- The text before the first pair of closing braces, and the text after them. -/
def close? : List Char → Option (List Char × List Char)
  | [] => none
  | '\x7d' :: '\x7d' :: rest => some ([], rest)
  | c :: rest => (close? rest).map fun (body, rest) => (c :: body, rest)

/-- The expression of a binding after its opening braces, at least one character,
and the text after its closing braces. -/
def body? : List Char → Option (List Char × List Char)
  | [] => none
  | c :: rest => (close? rest).map fun (body, rest) => (c :: body, rest)

/-- The text before the first binding, its expression, and the text after its
closing braces. -/
def open? : List Char → Option (List Char × List Char × List Char)
  | [] => none
  | '\x7b' :: '\x7b' :: rest => (body? rest).map fun (body, rest) => ([], body, rest)
  | c :: rest => (open? rest).map fun (before, body, rest) => (c :: before, body, rest)

/-- A literal piece, unless it is empty. -/
def ofLiteral (text : List Char) : List Piece :=
  if text.isEmpty then [] else [.literal text]

/-- The pieces of a text of at most the given length. -/
def splitWithin : Nat → List Char → List Piece
  | 0, text => ofLiteral text
  | fuel + 1, text =>
    match open? text with
    | none => ofLiteral text
    | some (before, body, rest) =>
      ofLiteral before ++ .binding body (rest.takeWhile (· == '\x7d'))
        :: splitWithin fuel (rest.dropWhile (· == '\x7d'))

/-- **The pieces of a text**, in order. -/
def split (text : List Char) : List Piece := splitWithin text.length text

/-- Whether a piece is a binding. -/
def isBinding : Piece → Bool
  | .literal _ => false
  | .binding .. => true

/-- A piece as an expression: a quoted string, or the binding's own expression in
parentheses, without the blanks around it. -/
def source : Piece → List Char
  | .literal text => Text.quoted text
  | .binding body spill => '(' :: (Text.trim (body ++ spill) ++ [')'])

end Piece

/-- What was found in a text. -/
structure Binding where
  /-- Whether the text holds an expression. -/
  hasBinding : Bool
  /-- The expression that the text stands for, or the text itself. -/
  normalized : String
  deriving DecidableEq, Repr

/-- Sources joined by a plus sign. -/
def joinWithPlus : List (List Char) → List Char
  | [] => []
  | [s] => s
  | s :: rest => s ++ '+' :: joinWithPlus rest

/-- **What a text holds**, where double braces enclose expressions. -/
def detect (raw : String) : Binding :=
  let pieces := Piece.split raw.toList
  if pieces.any Piece.isBinding then
    ⟨true, String.ofList (joinWithPlus (pieces.map Piece.source))⟩
  else ⟨false, raw⟩

end MiniTemplate
