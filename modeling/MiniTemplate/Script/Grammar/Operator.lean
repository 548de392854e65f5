import MiniTemplate.Script.Grammar.Arrow
import MiniTemplate.Script.Grammar.Operand
import MiniTemplate.Script.Grammar.Target

/-!
# Operators

Unary operators, binary operators by precedence, and what stands below them:
conditionals, assignments and arrow functions.
-/

namespace MiniTemplate.Script

/-- The binary operators with their precedence, the loosest first. -/
def binaryOperators : List (String × Nat) :=
  [("??", 1), ("||", 2), ("&&", 3), ("|", 4), ("^", 5), ("&", 6),
   ("==", 7), ("!=", 7), ("===", 7), ("!==", 7),
   ("<", 8), (">", 8), ("<=", 8), (">=", 8), ("instanceof", 8), ("in", 8),
   ("<<", 9), (">>", 9), (">>>", 9), ("+", 10), ("-", 10), ("*", 11), ("/", 11), ("%", 11),
   ("**", 12)]

/-- The precedence of the comparisons. -/
def comparisonPrecedence : Nat := 8

/-- The binary operator that a token is, with its precedence. -/
def binaryOperator? (c : Context) : Token → Option (String × Nat)
  | .mark m => binaryOperators.find? fun entry => entry.1 == m
  | .word w _ =>
    if w == "instanceof" || (w == "in" && c.allowIn) then some (w, comparisonPrecedence) else none
  | _ => none

/-- Whether an operator of a precedence may continue operands that bind tighter
than a bound; only powers group to the right. -/
def continues (bound : Nat) (operator : String) (precedence : Nat) : Bool :=
  bound < precedence || (bound == precedence && operator == "**")

/-- Whether an operator is one of the logical ones. -/
def isLogical (operator : String) : Bool :=
  operator == "??" || operator == "||" || operator == "&&"

/-- The operators of assignments; all but the first also compute. -/
def assignmentOperators : List String :=
  ["=", "+=", "-=", "*=", "/=", "%=", "**=", "<<=", ">>=", ">>>=", "&=", "|=", "^=", "&&=", "||=",
   "??="]

namespace Phrase

/-- Two operands joined by an operator. -/
def joined (operator : String) (left right : Phrase) : Phrase :=
  if isLogical operator then .logical operator left right else .binary operator left right

/-- Whether a phrase joins two operands by `||` or `&&`, and has no parentheses
around it. -/
def isConnective : Phrase → Bool
  | .logical operator _ _ => operator != "??"
  | _ => false

/-- Whether the operands of `??` mix it with `||` or `&&`. An operand that starts with
a parenthesis may, and next to a right operand that joins two others the left one
is free. -/
def mixes (leftParens rightParens : Bool) (left right : Phrase) : Bool :=
  if right.isConnective then !rightParens else left.isConnective && !leftParens

/-- Whether a phrase may not be the base of a power: a unary operation without
parentheses. -/
def isUnary : Phrase → Bool
  | .unary .. | .foreign .await => true
  | _ => false

end Phrase

namespace Parser

/-! ## Unary operators -/

/-- An operand with `++` or `--` before it or after it. -/
def update (r : Nested) (c : Context) : Parser Phrase := do
  if (← atMark "++") || (← atMark "--") then
    advance
    claimPlace (← r.unary c)
    return .foreign .update
  let p ← operand r c
  -- After a line end the operator belongs to what follows.
  if ((← atMark "++") || (← atMark "--")) && !(← get).newline then
    claimPlace p
    advance
    return .foreign .update
  return p

/-- Whether the word at hand waits for the value of an operand. -/
def atAwait (c : Context) : Parser Bool := do
  if !(← atWord "await") then return false
  if c.inAsync then return true
  sameLineAhead Token.startsAwaited

/-- An operand with its unary operators. -/
def unary (r : Nested) (c : Context) : Parser Phrase := do
  match ← token with
  | .mark m =>
    if m == "+" || m == "-" || m == "~" || m == "!" then
      advance
      return .unary m (← r.unary c)
    else update r c
  | .word w _ =>
    if w == "typeof" || w == "void" || w == "delete" then
      takeWord
      return .unary w (← r.unary c)
    else if ← atAwait c then
      -- The word is taken as the operator all the same, so that the operand is read to its end.
      flawIf !c.inAsync
      takeWord
      let _ ← r.unary { c with inAsync := true }
      return .foreign .await
    else update r c
  | _ => update r c

/-! ## Binary operators -/

/-- A test for a hidden member. -/
def hiddenTest (r : Nested) (bound : Nat) (c : Context) : Parser Phrase := do
  advance
  if c.allowIn && bound < comparisonPrecedence && (← skipWord "in") then
    let _ ← r.binary comparisonPrecedence c
    return .foreign .hiddenTest
  else failure

/-- Whether a type annotation goes on here, on the same line; expressions have none. -/
def atAnnotation : Parser Bool :=
  return ((← atWord "as") || (← atWord "satisfies")) && !(← get).newline

/-- The operators that continue an operand, with their right operands. The flag says
whether the first of the operands starts with a parenthesis. -/
def binaryRest (r : Nested) (bound : Nat) (c : Context) (leftParens : Bool) :
    Nat → Phrase → Parser Phrase
  | 0, _ => failure
  | fuel + 1, left => do
    if bound < comparisonPrecedence && (← atAnnotation) then failure
    match binaryOperator? c (← token) with
    | none => return left
    | some (operator, precedence) =>
      if !continues bound operator precedence then return left
      if operator == "in" || operator == "instanceof" then takeWord else advance
      -- Parentheses leave no trace in the operands joined so far, so their start is noted.
      let rightParens ← atMark "("
      let right ← r.binary precedence c
      flawIf (operator == "??" && Phrase.mixes leftParens rightParens left right)
      flawIf (operator == "**" && left.isUnary)
      binaryRest r bound c leftParens fuel (.joined operator left right)

/-- Operands joined by operators that bind tighter than a bound. -/
def binary (r : Nested) (bound : Nat) (c : Context) : Parser Phrase := do
  let leftParens ← atMark "("
  let left ← match ← token with
    | .hidden _ => hiddenTest r bound c
    | _ => unary r c
  binaryRest r bound c leftParens (← fuel) left

/-! ## Conditionals, assignments and arrow functions -/

/-- Whether the word at hand suspends a generator. -/
def atYield (c : Context) : Parser Bool := do
  if !(← atWord "yield") then return false
  if c.inGenerator then return true
  sameLineAhead Token.startsOperand

/-- Whether a token ends a suspension without operand. -/
def endsYield : Token → Bool
  | .finish => true
  | .word w _ => w == "in"
  | .mark m => [";", "\x7d", ")", "]", ":", ","].contains m
  | _ => false

/-- The suspension of a generator. -/
def suspension (r : Nested) (c : Context) : Parser Phrase := do
  flawIf !c.inGenerator
  takeWord
  if !(← get).newline then
    let delegates ← skipMark "*"
    if delegates || !endsYield (← token) then
      let _ ← r.assignment { c with inGenerator := true }
  return .foreign .yield

/-- What may follow the operands: an assignment, or the branches of a conditional. -/
def assignmentRest (r : Nested) (c : Context) (left : Phrase) : Parser Phrase := do
  match ← token with
  | .mark "?" =>
    advance
    let consequent ← r.assignment c.bracketed
    expectMark ":"
    let alternate ← r.assignment c
    return .conditional left consequent alternate
  | .mark m =>
    if assignmentOperators.contains m then
      claimTarget left
      advance
      let _ ← r.assignment c
      return .foreign (if m == "=" then .assignment else .compoundAssignment)
    else return left
  | _ => return left

/-- What may follow the operands, among it the arrow after a bare parameter. -/
def operandsRest (r : Nested) (c : Context) (left : Phrase) : Parser Phrase := do
  match left, ← token with
  | .name _, .mark "=>" => arrowTail r c false
  | left, _ => assignmentRest r c left

/-- An arrow function with parentheses around its parameters. -/
def arrow (r : Nested) (c : Context) : Parser Phrase := do
  arrowTail r c (← arrowHead r c)

/-- The arrow function or the operands that start here, where the first tokens leave
both open. An arrow shows only after the parameters, so they are read as operands
first, and again as parameters if an arrow follows or if they are no operands. -/
def possibleArrow (r : Nested) (c : Context) : Parser Phrase := do
  let start ← get
  match binary r 0 c start with
  | none => arrow r c
  | some (left, s) =>
    if s.token == .mark "=>" then
      match arrowHead r c start with
      | some (isAsync, s) => do
        set s
        arrowTail r c isAsync
      -- Operands before an arrow that no parameters stand for end here; the arrow is left over.
      | none => do
        set s
        return left
    else
      set s
      assignmentRest r c left

/-- The arrow function or the operands that start here. -/
def arrowOrOperands (r : Nested) (c : Context) : Parser Phrase := do
  match Likelihood.ofStart (← get) with
  | .never => operandsRest r c (← binary r 0 c)
  | .possible => possibleArrow r c
  | .certain => arrow r c

/-- **An expression without comma operator.** -/
def assignment (r : Nested) (c : Context) : Parser Phrase := do
  if ← atYield c then suspension r c
  else if ← atAsyncArrow then
    takeWord
    let _ ← bindingName c
    arrowTail r c true
  else arrowOrOperands r c

end Parser

end MiniTemplate.Script
