import MiniTemplate.Script.Numeral
import MiniTemplate.Script.Quotation

/-!
# Tokens of the expression language

`Token.scan?` reads the longest token at the start of a text, `skipGaps?` what
may stand before it: blanks, line ends and comments. Two readings depend on where
a token stands and are asked for by the parser: a slash may open a regular
expression (`regularExpression?`), and a closing brace may resume a template
(`Quotation.chunk?`).
-/

namespace MiniTemplate.Script

open MiniTemplate.Text (ofDigits)

/-- A token. -/
inductive Token where
  /-- An identifier or a keyword, and whether it was spelled with escapes. -/
  | word (name : String) (escaped : Bool)
  /-- A name that starts with a number sign. -/
  | hidden (name : String)
  /-- A punctuator. -/
  | mark (text : String)
  /-- A number. -/
  | number (value : Numeral)
  /-- A string. -/
  | string (value : String)
  /-- Template text, and whether it ends the template. -/
  | template (text : Option String) (last : Bool)
  /-- The end of the text. -/
  | finish
  deriving DecidableEq, Repr

/-! ## Between tokens -/

/-- What is being skipped: blanks, a comment to the end of its line, or a comment
with an end of its own. -/
inductive Gap where
  | blank
  | line
  | block
  deriving DecidableEq, Repr

/-- Skips blanks and comments; says whether a line end was among them. None if a
comment is not closed. -/
def skipGaps? (newline : Bool) : Gap → List Char → Option (Bool × List Char)
  | .block, [] => none
  | _, [] => some (newline, [])
  | .block, '*' :: '/' :: cs => skipGaps? newline .blank cs
  | .block, c :: cs => skipGaps? (newline || isLineEnd c) .block cs
  | .line, c :: cs => if isLineEnd c then skipGaps? true .blank cs else skipGaps? newline .line cs
  | .blank, '/' :: '/' :: cs => skipGaps? newline .line cs
  | .blank, '/' :: '*' :: cs => skipGaps? newline .block cs
  | .blank, c :: cs =>
    if isLineEnd c then skipGaps? true .blank cs
    else if isGap c then skipGaps? newline .blank cs
    else some (newline, c :: cs)

/-! ## Names -/

/-- The character of a numeric escape in a name, after its backslash. -/
def nameEscape? : List Char → Option (Char × List Char)
  | 'u' :: cs => do
    let (n, rest) ← codePoint? cs
    if isSurrogate n then none else return (Char.ofNat n, rest)
  | _ => none

/-- The characters of a name after its first; whether one was escaped comes second. -/
def nameParts? : Nat → List Char → Option (List Char × Bool × List Char)
  | 0, _ => none
  | _ + 1, [] => some ([], false, [])
  | fuel + 1, c :: cs =>
    if c = '\\' then do
      let (d, rest) ← nameEscape? cs
      if isNamePart d then
        let (more, _, rest) ← nameParts? fuel rest
        return (d :: more, true, rest)
      else none
    else if isNamePart c then do
      let (more, escaped, rest) ← nameParts? fuel cs
      return (c :: more, escaped, rest)
    else some ([], false, c :: cs)

/-- The name at the start of a text. -/
def name? : List Char → Option (String × Bool × List Char)
  | [] => none
  | c :: cs =>
    if c = '\\' then do
      let (d, rest) ← nameEscape? cs
      if isNameStart d then
        let (more, _, rest) ← nameParts? (rest.length + 1) rest
        return (String.ofList (d :: more), true, rest)
      else none
    else if isNameStart c then do
      let (more, escaped, rest) ← nameParts? (cs.length + 1) cs
      return (String.ofList (c :: more), escaped, rest)
    else none

/-! ## Punctuators -/

/-- The punctuators, longer ones before their beginnings. -/
def punctuators : List String :=
  [">>>=",
   "...", "===", "!==", "**=", "<<=", ">>=", ">>>", "&&=", "||=", "??=",
   "=>", "==", "!=", "<=", ">=", "&&", "||", "??", "?.", "++", "--", "+=", "-=", "*=", "/=",
   "%=", "&=", "|=", "^=", "<<", ">>", "**",
   "\x7b", "\x7d", "(", ")", "[", "]", ".", ";", ",", "<", ">", "+", "-", "*", "/", "%", "&",
   "|", "^", "!", "~", "?", ":", "=", "@"]

/-- The text after a beginning, if it has that. -/
def after? : List Char → List Char → Option (List Char)
  | [], cs => some cs
  | _ :: _, [] => none
  | p :: ps, c :: cs => if p = c then after? ps cs else none

/-- The punctuator `p` at the start of a text. A question mark and a point are two
punctuators when a digit follows. -/
def punctuator? (cs : List Char) (p : String) : Option (Token × List Char) := do
  let rest ← after? p.toList cs
  if p == "?." && rest.head?.any Char.isDigit then none else return (.mark p, rest)

/-! ## Tokens -/

namespace Token

/-- The token of a chunk of template text. -/
def ofChunk (k : Quotation.Chunk) : Token := .template (k.glyphs.map Glyph.text) k.last

/-- The template text at the start of a text. -/
def template? (cs : List Char) : Option (Token × List Char) :=
  (Quotation.chunk? (cs.length + 1) cs).map fun (k, rest) => (ofChunk k, rest)

/-- The string after its opening quote. -/
def string? (quote : Char) (cs : List Char) : Option (Token × List Char) :=
  (Quotation.string? quote (cs.length + 1) cs).map fun (gs, rest) => (.string (Glyph.text gs), rest)

/-- Whether a number starts here: at a digit, or at a point before a digit. -/
def startsNumber : List Char → Bool
  | '.' :: c :: _ => c.isDigit
  | c :: _ => c.isDigit
  | [] => false

/-- **The token** at the start of a text without gaps before it, and the text
after it. None if no token starts there, or if it is malformed. -/
def scan? (cs : List Char) : Option (Token × List Char) :=
  match cs with
  | [] => some (.finish, [])
  | '\x22' :: rest => string? '\x22' rest
  | '\x27' :: rest => string? '\x27' rest
  | '\x60' :: rest => template? rest
  | '#' :: rest => (name? rest).map fun (name, _, rest) => (.hidden name, rest)
  | c :: _ =>
    if startsNumber cs then (Numeral.scan? cs).map fun (n, rest) => (.number n, rest)
    else if c = '\\' || isNameStart c then
      (name? cs).map fun (name, escaped, rest) => (.word name escaped, rest)
    else punctuators.findSome? (punctuator? cs)

end Token

/-! ## Regular expressions -/

/-- The text after the slash that closes a regular expression; a slash within
brackets or after a backslash does not. -/
def regularExpressionEnd? (inClass : Bool) : List Char → Option (List Char)
  | [] => none
  | '\\' :: c :: cs => if isLineEnd c then none else regularExpressionEnd? inClass cs
  | c :: cs =>
    if isLineEnd c then none
    else if c = '/' && !inClass then some cs
    else if c = '[' then regularExpressionEnd? true cs
    else if c = ']' then regularExpressionEnd? false cs
    else regularExpressionEnd? inClass cs

/-- The flags of a regular expression: known letters, each at most once, and not
both kinds of Unicode mode. -/
def flagsAllowed (flags : List Char) : Bool :=
  flags.all (fun c => "dgimsuvy".toList.contains c) && decide flags.Nodup
    && !(flags.contains 'u' && flags.contains 'v')

/-- The text after a regular expression, of which the opening slash was read. -/
def regularExpression? (cs : List Char) : Option (List Char) := do
  let rest ← regularExpressionEnd? false cs
  let (flags, rest) := rest.span fun c => c.isAlphanum || c == '$' || c == '_'
  if flagsAllowed flags then return rest else none

end MiniTemplate.Script
