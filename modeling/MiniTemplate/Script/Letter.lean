import MiniTemplate.Script.LetterTable
import MiniTemplate.Text.Blank
import MiniTemplate.Text.Digit

/-!
# Characters of the expression language

Which characters start or continue an identifier, which separate tokens, and
which end a line. The language is that of ECMAScript; U+0085 separates tokens
like a blank, and does not end a line; U+200B separates them as well.
-/

namespace MiniTemplate.Script

open MiniTemplate.Text (inRanges isHex ofDigits)

/-- Whether an identifier may start with `c`. -/
def isNameStart (c : Char) : Bool :=
  if c.toNat < 0x80 then c.isAlpha || c == '$' || c == '_' else inRanges startRanges c

/-- Whether an identifier may go on with `c`. -/
def isNamePart (c : Char) : Bool :=
  if c.toNat < 0x80 then c.isAlphanum || c == '$' || c == '_'
  else inRanges startRanges c || inRanges continueRanges c || c.toNat == 0x200C || c.toNat == 0x200D

/-- Whether `c` ends a line. -/
def isLineEnd (c : Char) : Bool :=
  c == '\n' || c == '\r' || c.toNat == 0x2028 || c.toNat == 0x2029

/-- The blanks between tokens that do not end a line. -/
def gapRanges : List (Nat × Nat) :=
  [(0x09, 0x09), (0x0B, 0x0C), (0x20, 0x20), (0x85, 0x85), (0xA0, 0xA0), (0x1680, 0x1680),
   (0x2000, 0x200B), (0x202F, 0x202F), (0x205F, 0x205F), (0x3000, 0x3000), (0xFEFF, 0xFEFF)]

/-- Whether `c` separates tokens without ending a line. -/
def isGap (c : Char) : Bool := inRanges gapRanges c

/-- The least code point that is none. -/
def codePointLimit : Nat := 0x110000

/-- The code point of a numeric escape, after its `u`: four hexadecimal digits, or
any number of them in braces. The surrogates are not excluded. -/
def codePoint? : List Char → Option (Nat × List Char)
  | '\x7b' :: cs =>
    match cs.span isHex with
    | (d :: ds, '\x7d' :: rest) =>
      let n := ofDigits 16 (d :: ds)
      if n < codePointLimit then some (n, rest) else none
    | _ => none
  | a :: b :: c :: d :: rest =>
    if [a, b, c, d].all isHex then some (ofDigits 16 [a, b, c, d], rest) else none
  | _ => none

/-- Whether a code point is a surrogate. -/
def isSurrogate (n : Nat) : Bool := decide (0xD800 ≤ n ∧ n < 0xE000)

end MiniTemplate.Script
