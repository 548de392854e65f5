import MiniTemplate.Script.Grammar.Declaration

/-!
# Heads of loops

A `for` loop counts, or runs over the members of a value (`in`) or over the values it
gives (`of`). Only a loop over values may await them.
-/

namespace MiniTemplate.Script

namespace Parser

/-- An expression, if one stands before a punctuator, and the punctuator. -/
def optionalUpTo (r : Nested) (c : Context) (close : String) : Parser Unit := do
  if !(← atMark close) then
    let _ ← expression r c.bracketed
  expectMark close

/-- The head of a counting loop from its first semicolon on. -/
def countingRest (r : Nested) (c : Context) (awaits : Bool) : Parser Unit := do
  flawIf awaits
  expectMark ";"
  optionalUpTo r c ";"
  optionalUpTo r c ")"

/-- The head of a loop over members, from its word on. -/
def membersRest (r : Nested) (c : Context) (awaits : Bool) : Parser Unit := do
  flawIf awaits
  expectWord "in"
  let _ ← expression r c
  expectMark ")"

/-- The head of a loop over values, from its word on. -/
def valuesRest (r : Nested) (c : Context) : Parser Unit := do
  expectWord "of"
  let _ ← r.assignment c
  expectMark ")"

/-- Whether a loop must not run over values with what starts here: with an expression
that starts with `let`, or with the word `async` by itself unless it awaits them. -/
def barsValues (awaits : Bool) (s : Stream) : Bool :=
  s.token.isWord "let"
    || (!awaits && s.token == .word "async" false && s.next?.any (·.token.isWord "of"))

/-- The declaration in the head of a loop, if one starts here. -/
def loopDeclared? (c : Context) : Parser (Option Declared) := do
  if ← atWord "let" then
    match (← ahead).map Stream.token with
    | some (.word w _) => return if w == "in" then none else some .blockScoped
    | some (.mark m) => return if m == "[" || m == "\x7b" then some .blockScoped else none
    | _ => return none
  declared? c true

/-- The head of a loop, after its opening parenthesis. -/
def loopHead (r : Nested) (c : Context) (awaits : Bool) : Parser Unit := do
  if ← atMark ";" then
    countingRest r c awaits
    return
  let start ← get
  let inner := { c with allowIn := false }
  match ← loopDeclared? c with
  | some kind =>
    let complete ← declaredPatterns r inner kind
    if ← atWord "of" then valuesRest r c
    else if ← atWord "in" then
      flawIf (kind == .resource)
      membersRest r c awaits
    else
      flawIf !complete
      countingRest r c awaits
  | none =>
    let p ← expression r inner
    if ← atWord "of" then
      flawIf (barsValues awaits start)
      claimTarget p
      valuesRest r c
    else if ← atWord "in" then
      claimTarget p
      membersRest r c awaits
    else countingRest r c awaits

end Parser

end MiniTemplate.Script
