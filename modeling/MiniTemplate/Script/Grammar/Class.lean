import MiniTemplate.Script.Grammar.Function

/-!
# Classes

A class is read only to see that it is well formed and where it ends.
-/

namespace MiniTemplate.Script

namespace Parser

/-- Decorators. -/
def decorators (r : Nested) (c : Context) : Nat → Parser Unit
  | 0 => failure
  | fuel + 1 => do
    if ← skipMark "@" then
      let _ ← r.operand { c with inDecorator := true }
      decorators r c fuel

/-- The name of a class's element, where it is written out. -/
def elementName (r : Nested) (c : Context) : Parser (Option String) := do
  match ← token with
  | .hidden name =>
    flawIf (name == "constructor")
    advance
    return none
  | _ =>
    match ← key r c with
    | .name text | .string text => return some text
    | _ => return none

/-- Whether the word at hand modifies the element that starts with the next token. -/
def atModifier (w : String) (sameLine : Bool) (p : Token → Bool) : Parser Bool := do
  if !(← atWord w) then return false
  match ← ahead with
  | some s => return !(sameLine && s.newline) && p s.token
  | none => return false

/-- Steps over a modifier if it is at hand. -/
def skipModifier (w : String) (sameLine : Bool) (p : Token → Bool) : Parser Bool := do
  if ← atModifier w sameLine p then takeWord; return true else return false

/-- Whether a token may start the name of an accessor. -/
def startsAccessor (t : Token) : Bool := t.startsKey && t != .mark "*"

/-- The value of a field, which is a whole expression. -/
def fieldValue (r : Nested) (c : Context) : Parser Unit := do
  if ← skipMark "=" then
    let _ ← expression r { c with allowIn := true, inAsync := false, inGenerator := false }

/-- An element of a class. -/
def element (r : Nested) (c : Context) : Parser Unit := do
  decorators r c (← fuel)
  let isStatic ← skipModifier "static" false fun t => t.startsKey || t == .mark "\x7b"
  if isStatic && (← atMark "\x7b") then
    block r Context.staticBlock
  else if ← skipModifier "get" false startsAccessor then
    let name ← elementName r c
    accessorTail r c false
    flawIf (name == some "constructor" && !isStatic)
    flawIf (name == some "prototype" && isStatic)
  else if ← skipModifier "set" false startsAccessor then
    let name ← elementName r c
    accessorTail r c true
    flawIf (name == some "constructor" && !isStatic)
    flawIf (name == some "prototype" && isStatic)
  else
    let isAsync ← skipModifier "async" true Token.startsKey
    let isGenerator ← skipMark "*"
    let isField ← skipModifier "accessor" true startsAccessor
    let name ← elementName r c
    flawIf (name == some "prototype" && isStatic)
    if isGenerator || isAsync || (!isField && (← atMark "(")) then
      flawIf (name == some "constructor" && !isStatic && (isGenerator || isAsync))
      let _ ← functionTail r c isAsync isGenerator
    else
      flawIf (name == some "constructor")
      if isField then initialiser r c else fieldValue r c
      semicolon

/-- The elements of a class. -/
def elements (r : Nested) (c : Context) : Nat → Parser Unit
  | 0 => failure
  | fuel + 1 => do
    if ← skipMark "\x7d" then return
    if !(← skipMark ";") then element r c
    elements r c fuel

/-- A class, with its name if it has one. -/
def classTail (r : Nested) (c : Context) (named : Bool) : Parser Unit := do
  expectWord "class"
  if named || !((← atMark "\x7b") || (← atWord "extends")) then
    let _ ← bindingName c
  if ← skipWord "extends" then
    let _ ← r.operand c
  expectMark "\x7b"
  elements r c (← fuel)

end Parser

end MiniTemplate.Script
