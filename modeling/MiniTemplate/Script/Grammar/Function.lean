import MiniTemplate.Script.Grammar.Basic

/-!
# Keys, binding patterns and functions

Nothing of a function is kept but that it is one, so these parsers only decide
what is well formed and where it ends.
-/

namespace MiniTemplate.Script

namespace Parser

/-- The key of a member. -/
def key (r : Nested) (c : Context) : Parser (Key Phrase) := do
  match ← token with
  | .word w _ => advance; return .name w
  | .string s => advance; return .string s
  | .number (.double x) => advance; return .number x
  | .number .integer => advance; return .bigInteger
  | .mark "[" =>
    advance
    let p ← r.assignment c.bracketed
    expectMark "]"
    return .computed p
  | _ => failure

/-! ## Binding patterns -/

/-- A default value, if there is one. -/
def initialiser (r : Nested) (c : Context) : Parser Unit := do
  if ← skipMark "=" then
    let _ ← r.assignment c

/-- Sees to the parts that take the rest of a pattern, marked by `true`: only the
last part may be one, and no comma may follow it. -/
def restLast (comma : Bool) : List Bool → Parser Unit
  | [] => pure ()
  | [takesRest] => flawIf (takesRest && comma)
  | takesRest :: rest => if takesRest then failure else restLast comma rest

/-- A part of a list of patterns; says whether it takes the rest. The rest has no
default value. -/
def bindingPart (r : Nested) (c : Context) : Parser Bool := do
  if ← skipMark "..." then
    r.binding c
    flawIf (← atMark "=")
    initialiser r c
    return true
  else
    r.binding c
    initialiser r c
    return false

/-- An item of an array pattern. -/
def bindingItem (r : Nested) (c : Context) : Parser Bool := do
  if ← atMark "," then return false else bindingPart r c

/-- A member of an object pattern. -/
def bindingEntry (r : Nested) (c : Context) : Parser Bool := do
  if ← skipMark "..." then
    let _ ← bindingName c
    return true
  let first ← token
  let _ ← key r c
  if ← skipMark ":" then
    r.binding c
  else
    match first with
    | .word w _ => if !isName w then failure else flawIf (c.claims w)
    | _ => failure
  initialiser r c
  return false

/-- A binding pattern: a name, or an array or object of patterns. -/
def binding (r : Nested) (c : Context) : Parser Unit := do
  if ← skipMark "[" then
    let (parts, comma) ← list "]" (bindingItem r c.bracketed)
    restLast comma parts
  else if ← skipMark "\x7b" then
    let (parts, comma) ← list "\x7d" (bindingEntry r c.bracketed)
    restLast comma parts
  else
    let _ ← bindingName c

/-! ## Functions -/

/-- The parameters of a function; for each, whether it takes the rest. -/
def parameters (r : Nested) (c : Context) : Parser (List Bool) := do
  expectMark "("
  let (parts, comma) ← list ")" (bindingPart r c)
  restLast comma parts
  return parts

/-- Statements up to a closing brace. -/
def statements (r : Nested) (c : Context) : Nat → Parser Unit
  | 0 => failure
  | fuel + 1 => do
    if ← skipMark "\x7d" then return
    r.statement .list c
    statements r c fuel

/-- Statements within braces. -/
def block (r : Nested) (c : Context) : Parser Unit := do
  expectMark "\x7b"
  statements r c (← fuel)

/-- The parameters and the body of a function; gives the parameters. -/
def functionTail (r : Nested) (c : Context) (isAsync isGenerator : Bool) : Parser (List Bool) := do
  let parts ← parameters r (c.parameters isAsync isGenerator)
  block r (Context.body isAsync isGenerator)
  return parts

/-- A function after `async`, with its name if it has one; says whether it is a
generator. -/
def function (r : Nested) (c : Context) (isAsync named : Bool) : Parser Bool := do
  expectWord "function"
  let isGenerator ← skipMark "*"
  if named || !(← atMark "(") then
    let _ ← bindingName (if named then c else c.parameters isAsync isGenerator)
  let _ ← functionTail r c isAsync isGenerator
  return isGenerator

/-- Whether an asynchronous function starts here. -/
def atAsyncFunction : Parser Bool := do
  if ← atWord "async" then sameLineAhead (Token.isWord "function") else return false

/-- The parameters and the body of an accessor: to read, no parameter but one that
takes the rest, and to write, a single one that does not. -/
def accessorTail (r : Nested) (c : Context) (writes : Bool) : Parser Unit := do
  let parts ← functionTail r c false false
  flawIf (if writes then parts != [false] else parts.contains false)

end Parser

end MiniTemplate.Script
