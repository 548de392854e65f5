import MiniTemplate.Script.Grammar.Function

/-!
# Arrow functions

An arrow function starts like an expression in parentheses or like a call. Its first
tokens may decide which of them it is (`Likelihood`); where they do not, only the
arrow after the parentheses shows.
-/

namespace MiniTemplate.Script

/-- How sure the first tokens make it that an arrow function starts. -/
inductive Likelihood where
  | never
  | possible
  | certain
  deriving DecidableEq, Repr

namespace Likelihood

/-- The likelihood that the word at hand, the first in parentheses, is a parameter. -/
def ofParameter (s : Stream) : Likelihood :=
  match s.next?.map Stream.token with
  | some (.mark m) => if m == "," || m == "=" || m == ")" then .possible else .never
  | _ => .never

/-- The likelihood that the list of parameters at hand is empty. -/
def ofNone (s : Stream) : Likelihood :=
  match s.next?.map Stream.token with
  | some (.mark m) => if m == "=>" || m == "\x7b" then .certain else .never
  | _ => .never

/-- The likelihood that the dots at hand belong to a parameter. -/
def ofRest (s : Stream) : Likelihood :=
  match s.next?.map Stream.token with
  | some (.word w _) => if isPlainName w then .certain else .possible
  | some (.mark m) => if m == "(" then .never else .possible
  | _ => .possible

/-- The likelihood that the parentheses whose first token is at hand hold parameters. -/
def ofParameters (s : Stream) : Likelihood :=
  match s.token with
  | .word w _ => if isName w then ofParameter s else .never
  | .mark m =>
    if m == ")" then ofNone s
    else if m == "..." then ofRest s
    else if m == "[" || m == "\x7b" then .possible
    else .never
  | _ => .never

/-- The likelihood after an opening parenthesis, if that is at hand. -/
def ofParens (s : Stream) : Likelihood :=
  if s.token == .mark "(" then (s.next?.map ofParameters).getD .never else .never

/-- **The likelihood** that an arrow function with parentheses starts at hand. -/
def ofStart (s : Stream) : Likelihood :=
  if s.token.isWord "async" then
    match s.next? with
    | some t => if t.newline then .never else ofParens t
    | none => .never
  else ofParens s

end Likelihood

namespace Parser

/-- An arrow and the body after it. -/
def arrowTail (r : Nested) (c : Context) (isAsync : Bool) : Parser Phrase := do
  flawIf (← get).newline
  expectMark "=>"
  if ← atMark "\x7b" then
    block r (Context.body isAsync false)
  else
    let _ ← r.assignment { c with inAsync := isAsync, inGenerator := false }
  return .foreign .function

/-- The parameters of an arrow function up to its arrow; says whether the function
is asynchronous. -/
def arrowHead (r : Nested) (c : Context) : Parser Bool := do
  let isAsync ← do
    if ← atWord "async" then
      takeWord
      pure true
    else pure false
  let _ ← parameters r { c with inAsync := c.inAsync || isAsync, allowIn := true }
  if ← atMark "=>" then return isAsync else failure

/-- Whether an asynchronous arrow function with a bare parameter starts here. -/
def atAsyncArrow : Parser Bool := do
  if !(← atWord "async") then return false
  match ← ahead with
  | some s =>
    match s.token with
    | .word w _ => return isName w && !s.newline && s.next?.any (·.token == .mark "=>")
    | _ => return false
  | none => return false

end Parser

end MiniTemplate.Script
