import MiniTemplate.Script.Letter
import MiniTemplate.Text.Quoted

/-!
# Strings and template chunks

The text of a string or of a stretch of a template, escapes resolved. Escapes can
name surrogates that belong to no pair. A text with such a lone surrogate is
written with U+FFFD as an escape mark: each lone surrogate, and each U+FFFD of
the text itself, becomes U+FFFD followed by its four hexadecimal digits.
-/

namespace MiniTemplate.Script

open MiniTemplate.Text (isHex digitValue ofDigits)

/-- A unit of quoted text: a character, or a surrogate that belongs to no pair. -/
inductive Glyph where
  | char (c : Char)
  | lone (surrogate : Nat)
  deriving DecidableEq, Repr

namespace Glyph

/-- The mark that stands before the digits of a lone surrogate. -/
def mark : Char := Char.ofNat 0xFFFD

/-- Whether a glyph is a lone surrogate. -/
def isLone : Glyph → Bool
  | .char _ => false
  | .lone _ => true

/-- A glyph in a text that holds a lone surrogate. -/
def marked : Glyph → List Char
  | .char c => if c = mark then mark :: Text.hexUnit mark.toNat else [c]
  | .lone n => mark :: Text.hexUnit n

/-- A glyph in a text without lone surrogates. -/
def plain : Glyph → List Char
  | .char c => [c]
  | .lone _ => []

/-- The text of glyphs. -/
def text (gs : List Glyph) : String :=
  if gs.any isLone then String.ofList (gs.flatMap marked) else String.ofList (gs.flatMap plain)

/-- The glyph of a code point. -/
def ofCodePoint (n : Nat) : Glyph := if isSurrogate n then .lone n else .char (Char.ofNat n)

end Glyph

namespace Quotation

/-- The trailing surrogate that an escape spells in four digits, if it does. -/
def trailing? : List Char → Option (Nat × List Char)
  | '\\' :: 'u' :: a :: b :: c :: d :: rest =>
    let n := ofDigits 16 [a, b, c, d]
    if [a, b, c, d].all isHex && decide (0xDC00 ≤ n ∧ n < 0xE000) then some (n, rest) else none
  | _ => none

/-- The character that a leading and a trailing surrogate spell together. -/
def paired (high low : Nat) : Char :=
  Char.ofNat (0x10000 + (high - 0xD800) * 1024 + (low - 0xDC00))

/-- The glyph of a numeric escape, after its `u`: two escapes of four digits may
spell one character. -/
def numeric? (cs : List Char) : Option (Glyph × List Char) := do
  let (n, rest) ← codePoint? cs
  -- Escapes in braces make no pairs.
  if cs.head? != some '\x7b' && decide (0xD800 ≤ n ∧ n < 0xDC00) then
    match trailing? rest with
    | some (low, rest) => return (.char (paired n low), rest)
    | none => return (.lone n, rest)
  else return (Glyph.ofCodePoint n, rest)

/-- Whether `c` is a digit below eight. -/
def isOctal (c : Char) : Bool := c.isDigit && decide (digitValue c < 8)

/-- The digits of an octal escape: up to three, up to two after a digit above three. -/
def octalDigits (cs : List Char) : List Char × List Char :=
  let most := match cs with
    | c :: _ => if digitValue c ≤ 3 then 3 else 2
    | [] => 0
  let ds := (cs.take most).takeWhile isOctal
  (ds, cs.drop ds.length)

/-- What an escape stands for: glyphs, or nothing meaningful. -/
inductive Escape where
  | glyphs (gs : List Glyph)
  | meaningless
  deriving Repr

/-- The meaning of an escape after its backslash, and the text after it. In a
template octal escapes have none. A line end after the backslash is dropped. -/
def escape? (inTemplate : Bool) : List Char → Option (Escape × List Char)
  | [] => none
  | c :: cs =>
    let one := fun (d : Char) => some (Escape.glyphs [.char d], cs)
    if c = '\r' then
      match cs with
      | '\n' :: rest => some (.glyphs [], rest)
      | rest => some (.glyphs [], rest)
    else if isLineEnd c then some (.glyphs [], cs)
    else match c with
      | 'n' => one '\n'
      | 't' => one '\t'
      | 'r' => one '\r'
      | 'b' => one '\x08'
      | 'v' => one '\x0b'
      | 'f' => one '\x0c'
      | 'x' =>
        match cs with
        | a :: b :: rest =>
          if isHex a && isHex b then some (.glyphs [.char (Char.ofNat (ofDigits 16 [a, b]))], rest)
          else some (.meaningless, cs)
        | rest => some (.meaningless, rest)
      | 'u' =>
        match numeric? cs with
        | some (g, rest) => some (.glyphs [g], rest)
        | none => some (.meaningless, cs)
      | c =>
        if inTemplate && c.isDigit then
          -- A zero is octal only if a digit follows it.
          if c == '0' && !(cs.head?.any Char.isDigit) then one '\x00'
          else some (.meaningless, cs)
        else if isOctal c then
          let (ds, rest) := octalDigits (c :: cs)
          some (.glyphs [.char (Char.ofNat (ofDigits 8 ds))], rest)
        else one c

/-- The glyphs of a string up to the quote that closes it, and the text after that. -/
def string? (quote : Char) : Nat → List Char → Option (List Glyph × List Char)
  | 0, _ => none
  | fuel + 1, cs =>
    match cs with
    | [] => none
    | c :: cs =>
      if c = quote then some ([], cs)
      else if c = '\\' then
        match escape? false cs with
        | some (.glyphs gs, rest) =>
          (string? quote fuel rest).map fun (more, rest) => (gs ++ more, rest)
        | _ => none
      else if c = '\n' || c = '\r' then none
      else (string? quote fuel cs).map fun (more, rest) => (.char c :: more, rest)

/-- A stretch of template text: its meaning, if all its escapes have one, and
whether it ends the template rather than at a substitution. -/
structure Chunk where
  glyphs : Option (List Glyph)
  last : Bool
  deriving Repr

/-- Puts glyphs before those of a chunk. -/
def Chunk.prepend (gs : Option (List Glyph)) (k : Chunk) : Chunk :=
  { k with glyphs := do return (← gs) ++ (← k.glyphs) }

/-- The template text up to a substitution or to the end of the template, and the
text after that. Every line end but an escaped one counts as a line feed if it is
a carriage return, alone or before a line feed. -/
def chunk? : Nat → List Char → Option (Chunk × List Char)
  | 0, _ => none
  | fuel + 1, cs =>
    let glyph := fun (g : Char) (rest : List Char) =>
      (chunk? fuel rest).map fun (k, rest) => (k.prepend (some [.char g]), rest)
    match cs with
    | [] => none
    | '\x60' :: rest => some (⟨some [], true⟩, rest)
    | '$' :: '\x7b' :: rest => some (⟨some [], false⟩, rest)
    | '\\' :: rest =>
      match escape? true rest with
      | some (.glyphs gs, rest) =>
        (chunk? fuel rest).map fun (k, rest) => (k.prepend (some gs), rest)
      | some (.meaningless, rest) =>
        (chunk? fuel rest).map fun (k, rest) => (k.prepend none, rest)
      | none => none
    | '\r' :: '\n' :: rest => glyph '\n' rest
    | '\r' :: rest => glyph '\n' rest
    | c :: rest => glyph c rest

end Quotation

end MiniTemplate.Script
