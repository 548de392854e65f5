import MiniTemplate.Script.Grammar.Operator

/-!
# Declarations of variables

Declarations by `var`, `let`, `const` and `using`. Outside of a loop a pattern needs
a value, and so do constants and resources.
-/

namespace MiniTemplate.Script

/-- What a declaration declares. -/
inductive Declared where
  | functionScoped
  | blockScoped
  | constant
  | resource
  deriving DecidableEq, Repr

/-- Whether a name follows the word at hand on the same line. In the head of a loop
`of` is such a name only before its value. -/
def Stream.bindsAhead (s : Stream) (inLoop : Bool) : Bool :=
  match s.next? with
  | some t =>
    match t.token with
    | .word w _ =>
      isName w && !t.newline && (!inLoop || w != "of" || t.next?.any (·.token == .mark "="))
    | _ => false
  | none => false

namespace Parser

/-- Whether the declaration of a resource starts here. -/
def atResource (c : Context) (inLoop : Bool) : Parser Bool := do
  let s ← get
  if s.token.isWord "using" then return s.bindsAhead inLoop
  if c.inAsync && s.token.isWord "await" then
    return s.next?.any fun t => t.token.isWord "using" && t.bindsAhead false
  return false

/-- The declaration by another word than `let` that starts here, if one does. -/
def declared? (c : Context) (inLoop : Bool) : Parser (Option Declared) := do
  if ← atWord "var" then return some .functionScoped
  if ← atWord "const" then return some .constant
  if ← atResource c inLoop then return some .resource
  return none

/-- One declared pattern; says whether it is complete without a loop around it. -/
def declarator (r : Nested) (c : Context) (kind : Declared) : Parser Bool := do
  let isName ← match ← token with
    | .word .. => pure true
    | _ => pure false
  r.binding c
  flawIf (kind == .resource && !isName)
  if ← skipMark "=" then
    let _ ← r.assignment c
    return true
  return isName && (kind == .functionScoped || kind == .blockScoped)

/-- Declared patterns; says whether all of them are complete. -/
def declarators (r : Nested) (c : Context) (kind : Declared) : Nat → Parser Bool
  | 0 => failure
  | fuel + 1 => do
    let complete ← declarator r c kind
    if ← skipMark "," then
      let others ← declarators r c kind fuel
      return complete && others
    else return complete

/-- The declared patterns with the words before them. The first resource has another
name than `await`. -/
def declaredPatterns (r : Nested) (c : Context) (kind : Declared) : Parser Bool := do
  if kind == .resource then
    let _ ← skipWord "await"
  takeWord
  flawIf (kind == .resource && (← atWord "await"))
  declarators r c kind (← fuel)

/-- A declaration as a statement. Only variables of the whole function are declared
without a list of statements around them, and no resource in a case. -/
def declaration (r : Nested) (c : Context) (place : Place) (kind : Declared) : Parser Unit := do
  let complete ← declaredPatterns r c kind
  flawIf !complete
  flawIf (place == .alone && kind != .functionScoped)
  flawIf (place == .caseList && kind == .resource)
  semicolon

end Parser

/-- Whether a token makes an expression of the word `let` before it: an operator that
assigns, or one that computes a value from two others. -/
def Token.operatesOnName : Token → Bool
  | .mark m => assignmentOperators.contains m
      || (binaryOperators.any (·.1 == m) && !isLogical m)
  | .word w _ => w == "in" || w == "instanceof"
  | _ => false

namespace Parser

/-- A statement that starts with `let`: an expression that an operator, a member
access or a call continues, the word by itself, or else a declaration. After a
member access or a call no semicolon is asked for. -/
def letStatement (r : Nested) (c : Context) (place : Place) : Parser Unit := do
  match (← ahead).map Stream.token with
  | none => failure
  | some t =>
    if t.operatesOnName then
      let _ ← r.assignment c
      semicolon
    else if t == .mark "." || t == .mark "(" then
      let _ ← expression r c
    else if t == .mark ";" || (place == .alone && t != .mark "[") then
      let _ ← bindingName c
      semicolon
    else declaration r c place .blockScoped

end Parser

end MiniTemplate.Script
