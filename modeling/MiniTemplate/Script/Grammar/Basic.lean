import MiniTemplate.Script.Phrase
import MiniTemplate.Script.Stream

/-!
# The grammar's ground

What a place allows (`Context`), which words are names, and the parts of the
grammar that contain one another (`Nested`). Each rule of the grammar takes the
nested parsers as an argument, so every rule stands on its own; the knot is tied
once, with a bound on the depth.
-/

namespace MiniTemplate.Script

/-- What the place of an expression allows. -/
structure Context where
  /-- Whether `in` is an operator. -/
  allowIn : Bool := true
  /-- Whether `yield` suspends a generator. -/
  inGenerator : Bool := false
  /-- Whether `await` waits for a value. -/
  inAsync : Bool := true
  /-- Whether a statement may return. -/
  inBody : Bool := false
  /-- Whether an opening bracket belongs to what follows a decorator. -/
  inDecorator : Bool := false
  deriving Repr

namespace Context

/-- The same place, within brackets. -/
def bracketed (c : Context) : Context := { c with allowIn := true }

/-- The same place, within parentheses. -/
def enclosed (c : Context) : Context := { c with allowIn := true, inDecorator := false }

/-- The parameters of a function. -/
def parameters (isAsync isGenerator : Bool) (c : Context) : Context :=
  { c with allowIn := true, inGenerator := isGenerator, inAsync := isAsync }

/-- The body of a function. -/
def body (isAsync isGenerator : Bool) : Context :=
  { allowIn := true, inGenerator := isGenerator, inAsync := isAsync, inBody := true }

/-- A static block of a class: `await` has its meaning there, as it has outside of
functions. -/
def staticBlock : Context := {}

end Context

/-- Where a statement stands: in a list of statements, in a case of a switch, or
alone as the body of another statement. -/
inductive Place where
  | list
  | caseList
  | alone
  deriving DecidableEq, Repr

/-- The parts of the grammar that may occur within one another. -/
structure Nested where
  /-- An expression without comma operator. -/
  assignment : Context → Parser Phrase
  /-- Operands joined by operators that bind tighter than a bound. -/
  binary : Nat → Context → Parser Phrase
  /-- An operand with its unary operators. -/
  unary : Context → Parser Phrase
  /-- An operand with member accesses and calls. -/
  operand : Context → Parser Phrase
  /-- An operand with member accesses, and whether they form an optional chain. -/
  member : Context → Parser (Phrase × Bool)
  /-- A binding pattern. -/
  binding : Context → Parser Unit
  /-- A statement. -/
  statement : Place → Context → Parser Unit

/-- The nested parsers at depth zero, which all fail. -/
def Nested.none : Nested where
  assignment _ := failure
  binary _ _ := failure
  unary _ := failure
  operand _ := failure
  member _ := failure
  binding _ := failure
  statement _ _ := failure

/-! ## Names -/

/-- Words that never name anything. -/
def reservedWords : List String :=
  ["break", "case", "catch", "class", "const", "continue", "debugger", "default", "delete", "do",
   "else", "enum", "export", "extends", "false", "finally", "for", "function", "if", "import",
   "in", "instanceof", "new", "null", "return", "super", "switch", "this", "throw", "true", "try",
   "typeof", "var", "void", "while", "with"]

/-- Words that may name something, and that have a meaning of their own somewhere. -/
def contextualWords : List String :=
  ["abstract", "accessor", "any", "as", "assert", "asserts", "async", "await", "bigint", "boolean",
   "constructor", "declare", "defer", "from", "get", "global", "implements", "infer", "interface",
   "intrinsic", "is", "keyof", "let", "meta", "module", "namespace", "never", "number", "object",
   "of", "out", "override", "package", "private", "protected", "public", "readonly", "require",
   "satisfies", "set", "source", "static", "string", "symbol", "target", "type", "undefined",
   "unique", "unknown", "using", "yield"]

/-- Whether a word may name something. -/
def isName (w : String) : Bool := !reservedWords.contains w

/-- Whether a word has a meaning of its own at this place. -/
def Context.claims (c : Context) (w : String) : Bool :=
  (c.inAsync && w == "await") || (c.inGenerator && w == "yield")

/-- Whether a word only ever names something. -/
def isPlainName (w : String) : Bool := isName w && !contextualWords.contains w

/-- Whether a token may follow `yield` as the start of an operand on the same line:
a word other than an operator, a string or a number. -/
def Token.startsOperand : Token → Bool
  | .word w _ => !(w == "in" || w == "instanceof")
  | .string _ | .number _ => true
  | _ => false

/-- Whether a token may follow `await` as the start of an operand on the same line:
also a slash, but not the word that may follow the variable of a loop. -/
def Token.startsAwaited : Token → Bool
  | .mark m => m == "/"
  | t => t.startsOperand && !t.isWord "of"

/-- Whether a token may be the name of a member, or start one. -/
def Token.startsKey : Token → Bool
  | .word .. | .hidden _ | .string _ | .number _ => true
  | .mark m => m == "[" || m == "*"
  | _ => false

namespace Parser

/-- A name that is being bound. -/
def bindingName (c : Context) : Parser String := do
  match ← token with
  | .word w _ =>
    if !isName w then failure
    flawIf (c.claims w)
    advance
    return w
  | _ => failure

/-- Expressions divided by commas, after the first. -/
def expressionRest (r : Nested) (c : Context) : Nat → Parser (List Phrase)
  | 0 => failure
  | fuel + 1 => do
    if ← skipMark "," then
      let p ← r.assignment c
      return p :: (← expressionRest r c fuel)
    else return []

/-- An expression, with the comma operator. -/
def expression (r : Nested) (c : Context) : Parser Phrase := do
  let c := { c with inDecorator := false }
  let p ← r.assignment c
  match ← expressionRest r c (← fuel) with
  | [] => return p
  | rest => return .sequence (p :: rest)

/-- Whether the next token is on the same line and satisfies a condition. -/
def sameLineAhead (p : Token → Bool) : Parser Bool := do
  match ← ahead with
  | some s => return !s.newline && p s.token
  | none => return false

end Parser

end MiniTemplate.Script
