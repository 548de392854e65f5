import MiniTemplate.Script.Token

/-!
# Token streams

A stream stands at a token and knows the text after it, so that looking ahead is
stepping a copy. A parser is a step over streams that may fail; a failed attempt
leaves nothing behind.

Some errors do not stop a parser, but make its result worthless: the stream is
then `flawed` for good. An initialiser in an object (`{a = 1}`) is an error unless
the object turns out to be the target of an assignment, so those are counted in
`unset` until a target claims them.
-/

namespace MiniTemplate.Script

/-- A text being read, token by token. -/
structure Stream where
  /-- The token at hand. -/
  token : Token
  /-- Whether a line end stands before the token. -/
  newline : Bool
  /-- The text after the token. -/
  rest : List Char
  /-- Whether an error was met that did not stop the parser. -/
  flawed : Bool := false
  /-- How many initialisers in objects await an assignment. -/
  unset : Nat := 0
  deriving Repr

namespace Stream

/-- The stream one token further; none if no token can be read there. -/
def next? (s : Stream) : Option Stream := do
  let (newline, cs) ← skipGaps? false .blank s.rest
  let (token, rest) ← Token.scan? cs
  return { s with token, newline, rest }

/-- The stream at the first token of a text. -/
def start? (text : List Char) : Option Stream :=
  next? { token := .finish, newline := false, rest := text }

/-- A number of steps that no parser of the text ahead exceeds. -/
def fuel (s : Stream) : Nat := s.rest.length + 2

end Stream

/-- Whether a token is a word of a given spelling. -/
def Token.isWord (w : String) : Token → Bool
  | .word name _ => name == w
  | _ => false

/-- A step over streams. -/
abbrev Parser := StateT Stream Option

namespace Parser

/-- The token at hand. -/
def token : Parser Token := return (← get).token

/-- The stream one token further, where there is one. -/
def ahead : Parser (Option Stream) := return (← get).next?

/-- The number of steps that the text ahead allows. -/
def fuel : Parser Nat := return (← get).fuel

/-- Steps over the token at hand. -/
def advance : Parser Unit := do
  match (← get).next? with
  | some s => set s
  | none => failure

/-- Notes an error that does not stop the parser. -/
def flaw : Parser Unit := modify fun s => { s with flawed := true }

/-- Notes an error under a condition. -/
def flawIf (p : Bool) : Parser Unit := if p then flaw else pure ()

/-- Whether a given punctuator is at hand. -/
def atMark (m : String) : Parser Bool := return (← token) == .mark m

/-- Steps over a punctuator if it is at hand. -/
def skipMark (m : String) : Parser Bool := do
  if ← atMark m then advance; return true else return false

/-- Steps over a punctuator that has to be at hand. -/
def expectMark (m : String) : Parser Unit := do
  if ← atMark m then advance else failure

/-- Whether a given word is at hand. -/
def atWord (w : String) : Parser Bool := return (← token).isWord w

/-- Steps over a keyword; it must not be spelled with escapes. -/
def takeWord : Parser Unit := do
  match ← token with
  | .word _ escaped => flawIf escaped; advance
  | _ => failure

/-- Steps over a keyword if it is at hand. -/
def skipWord (w : String) : Parser Bool := do
  if ← atWord w then takeWord; return true else return false

/-- Steps over a keyword that has to be at hand. -/
def expectWord (w : String) : Parser Unit := do
  if ← atWord w then takeWord else failure

/-- Items divided by commas, up to the closing punctuator; says whether a comma
stands before that. -/
def separated {α : Type} (close : String) (item : Parser α) : Nat → Parser (List α × Bool)
  | 0 => failure
  | fuel + 1 => do
    if ← skipMark close then return ([], false)
    let x ← item
    if ← skipMark close then return ([x], false)
    expectMark ","
    if ← skipMark close then return ([x], true)
    let (xs, comma) ← separated close item fuel
    return (x :: xs, comma)

/-- Items divided by commas, up to the closing punctuator. -/
def list {α : Type} (close : String) (item : Parser α) : Parser (List α × Bool) := do
  separated close item (← fuel)

/-- The end of a statement: a semicolon, or a place where one is understood. -/
def semicolon : Parser Unit := do
  match ← token with
  | .mark ";" => advance
  | .mark "\x7d" | .finish => return
  | _ => if (← get).newline then return else failure

end Parser

end MiniTemplate.Script
