import MiniTemplate.Script.Grammar.Loop
import MiniTemplate.Script.Grammar.Module

/-!
# Statements

Statements occur in the bodies of functions only, and are read to see that they
are well formed and where they end.
-/

namespace MiniTemplate.Script

namespace Parser

/-- An expression in parentheses, as the head of a statement. -/
def head (r : Nested) (c : Context) : Parser Unit := do
  expectMark "("
  let _ ← expression r c
  expectMark ")"

/-- The statements of a case, up to the next one. -/
def caseStatements (r : Nested) (c : Context) : Nat → Parser Unit
  | 0 => failure
  | fuel + 1 => do
    if (← atWord "case") || (← atWord "default") || (← atMark "\x7d") then return
    r.statement .caseList c
    caseStatements r c fuel

/-- The cases of a switch. -/
def cases (r : Nested) (c : Context) : Nat → Parser Unit
  | 0 => failure
  | fuel + 1 => do
    if ← skipMark "\x7d" then return
    if ← skipWord "case" then
      let _ ← expression r c
    else expectWord "default"
    expectMark ":"
    caseStatements r c (← Parser.fuel)
    cases r c fuel

/-- The handlers of a try statement, of which there is at least one. -/
def handlers (r : Nested) (c : Context) : Parser Unit := do
  let caught ← skipWord "catch"
  if caught then
    if ← skipMark "(" then
      r.binding c
      expectMark ")"
    block r c
  if ← skipWord "finally" then block r c
  else if !caught then failure

/-- A jump with an optional label. -/
def jump (c : Context) : Parser Unit := do
  takeWord
  match ← token with
  | .word .. => if !(← get).newline then let _ ← bindingName c
  | _ => pure ()
  semicolon

/-- A statement that starts with an expression or a label. -/
def expressionStatement (r : Nested) (c : Context) : Parser Unit := do
  let labelled ← match ← token with
    | .word w _ => pure (isName w && (← ahead).any fun s => s.token == .mark ":")
    | _ => pure false
  if labelled then
    let _ ← bindingName c
    expectMark ":"
    r.statement .alone c
  else
    let _ ← expression r c
    semicolon

/-- A declaration of a class. It has a list of statements around it. -/
def classStatement (r : Nested) (c : Context) (place : Place) : Parser Unit := do
  flawIf (place == .alone)
  classTail r c true

/-- A declaration of a function. Generators and asynchronous functions have a list of
statements around them. -/
def functionStatement (r : Nested) (c : Context) (place : Place) (isAsync : Bool) :
    Parser Unit := do
  let isGenerator ← function r c isAsync true
  flawIf (place == .alone && (isAsync || isGenerator))

/-- A statement that starts with a word. -/
def wordStatement (r : Nested) (c : Context) (place : Place) (w : String) : Parser Unit := do
  match w with
  | "if" =>
    takeWord
    head r c
    r.statement .alone c
    if ← skipWord "else" then r.statement .alone c
  | "do" =>
    takeWord
    r.statement .alone c
    expectWord "while"
    head r c
    let _ ← skipMark ";"
  | "while" | "with" =>
    takeWord
    head r c
    r.statement .alone c
  | "for" =>
    takeWord
    let awaits ← skipWord "await"
    flawIf (awaits && !c.inAsync)
    expectMark "("
    loopHead r c awaits
    r.statement .alone c
  | "switch" =>
    takeWord
    head r c
    expectMark "\x7b"
    cases r c (← fuel)
  | "try" =>
    takeWord
    block r c
    handlers r c
  | "break" | "continue" => jump c
  | "return" =>
    flawIf !c.inBody
    takeWord
    if !((← atMark ";") || (← atMark "\x7d") || (← get).newline) then
      let _ ← expression r c.bracketed
    semicolon
  | "throw" =>
    takeWord
    flawIf (← get).newline
    let _ ← expression r c
    semicolon
  | "debugger" =>
    takeWord
    semicolon
  | "function" => functionStatement r c place false
  | "class" => classStatement r c place
  | "export" => exportDeclaration r c
  | "import" =>
    if (← ahead).any fun s => s.token == .mark "." || s.token == .mark "(" then
      expressionStatement r c
    else importDeclaration c
  | _ =>
    if ← atAsyncFunction then
      takeWord
      functionStatement r c place true
    else expressionStatement r c

/-- **A statement.** -/
def statement (r : Nested) (place : Place) (c : Context) : Parser Unit := do
  match ← token with
  | .mark "\x7b" => block r c
  | .mark ";" => advance
  | .mark "@" =>
    decorators r c (← fuel)
    if ← atWord "export" then exportDeclaration r c else classStatement r c place
  | .word "let" false => letStatement r c place
  | .word w _ =>
    match ← declared? c false with
    | some kind => declaration r c place kind
    | none => wordStatement r c place w
  | _ => expressionStatement r c

end Parser

end MiniTemplate.Script
