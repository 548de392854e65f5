import MiniTemplate.Script.Grammar.Class

/-!
# Operands

The operands of the operators: names, literals, arrays, objects, templates,
parentheses, functions and classes, and what may follow one of them: member
accesses, calls and tagged templates, some of them in an optional chain.
-/

namespace MiniTemplate.Script

namespace Parser

/-! ## Templates -/

/-- Resumes a template at the brace that closes a substitution. -/
def resumeTemplate : Parser Unit := do
  let s ← get
  if s.token == .mark "\x7d" then
    match Token.template? s.rest with
    | some (token, rest) => set { s with token, rest }
    | none => failure
  else failure

/-- The texts and the substitutions of a template. In a template without a tag
every escape has to mean something. -/
def templateParts (r : Nested) (c : Context) (tagged : Bool) :
    Nat → Parser (List String × List Phrase)
  | 0 => failure
  | fuel + 1 => do
    match ← token with
    | .template text last =>
      flawIf (text.isNone && !tagged)
      advance
      if last then return ([text.getD ""], [])
      let p ← expression r c.bracketed
      resumeTemplate
      let (quasis, parts) ← templateParts r c tagged fuel
      return (text.getD "" :: quasis, p :: parts)
    | _ => failure

/-- A template. -/
def template (r : Nested) (c : Context) (tagged : Bool) : Parser Phrase := do
  let (quasis, parts) ← templateParts r c tagged (← fuel)
  return .template quasis parts

/-! ## Arrays, objects and arguments -/

/-- An item of an array. -/
def item (r : Nested) (c : Context) : Parser (Item Phrase) := do
  if ← atMark "," then return .hole
  if ← skipMark "..." then return .spread (← r.assignment c)
  return .plain (← r.assignment c)

/-- An array. -/
def array (r : Nested) (c : Context) : Parser Phrase := do
  expectMark "["
  let (items, comma) ← list "]" (item r c.bracketed)
  return .array items comma

/-- An argument of a call. -/
def argument (r : Nested) (c : Context) : Parser (Argument Phrase) := do
  if ← skipMark "..." then return .spread (← r.assignment c)
  return .plain (← r.assignment c)

/-- The arguments of a call. -/
def arguments (r : Nested) (c : Context) : Parser (List (Argument Phrase)) := do
  expectMark "("
  return (← list ")" (argument r c.enclosed)).1

/-- A member of an object that is no accessor and no spread. -/
def plainEntry (r : Nested) (c : Context) (isAsync : Bool) : Parser (Entry Phrase) := do
  let isGenerator ← skipMark "*"
  let first ← token
  let k ← key r c
  if isGenerator || isAsync || (← atMark "(") then
    let _ ← functionTail r c isAsync isGenerator
    return .method k
  if ← skipMark ":" then return .pair k (← r.assignment c)
  match first with
  | .word w _ =>
    -- Only a word may be a member by itself. An initialiser makes sense in a pattern alone, and
    -- whether this is one shows later.
    if !isName w then failure
    flawIf (c.claims w)
    if ← skipMark "=" then
      let _ ← r.assignment c
      modify fun s => { s with unset := s.unset + 1 }
      return .initialised w
    return .shorthand w
  | _ => failure

/-- A member of an object. -/
def entry (r : Nested) (c : Context) : Parser (Entry Phrase) := do
  if ← skipMark "..." then return .spread (← r.assignment c)
  if ← skipModifier "async" true Token.startsKey then plainEntry r c true
  else if ← skipModifier "get" false startsAccessor then
    let k ← key r c
    accessorTail r c false
    return .accessor k
  else if ← skipModifier "set" false startsAccessor then
    let k ← key r c
    accessorTail r c true
    return .accessor k
  else plainEntry r c false

/-- An object. -/
def object (r : Nested) (c : Context) : Parser Phrase := do
  expectMark "\x7b"
  let (entries, comma) ← list "\x7d" (entry r c.bracketed)
  return .object entries comma

/-! ## Simple operands -/

/-- An expression in parentheses. -/
def parens (r : Nested) (c : Context) : Parser Phrase := do
  expectMark "("
  let p ← expression r c.enclosed
  expectMark ")"
  return .parens p

/-- A regular expression, whose opening slash is at hand. -/
def regularExpression : Parser Phrase := do
  let s ← get
  match regularExpression? s.rest with
  | some rest => set { s with rest }
  | none => failure
  advance
  return .foreign .regularExpression

/-- An operand that starts with a word. -/
def wordOperand (r : Nested) (c : Context) (w : String) : Parser Phrase := do
  match w with
  | "null" => takeWord; return .literal .null
  | "true" => takeWord; return .literal (.bool true)
  | "false" => takeWord; return .literal (.bool false)
  | "this" => takeWord; return .foreign .this
  | "function" =>
    let _ ← function r c false false
    return .foreign .function
  | "class" => classTail r c false; return .foreign .classBody
  | _ =>
    if ← atAsyncFunction then
      takeWord
      let _ ← function r c true false
      return .foreign .function
    return .name (← bindingName c)

/-- An operand by itself. -/
def simpleOperand (r : Nested) (c : Context) : Parser Phrase := do
  match ← token with
  | .word w _ => wordOperand r c w
  | .number (.double x) => advance; return .literal (.number x)
  | .number .integer => advance; return .foreign .bigInteger
  | .string s => advance; return .literal (.string s)
  | .template .. => template r c false
  | .mark m =>
    match m with
    | "(" => parens r c
    | "[" => array r c
    | "\x7b" => object r c
    | "/" | "/=" => regularExpression
    | "@" =>
      decorators r c (← fuel)
      classTail r c false
      return .foreign .classBody
    | _ => failure
  | _ => failure

/-! ## Operands that start with a keyword of their own -/

/-- The arguments of a dynamic import: one expression, or two. -/
def importArguments (r : Nested) (c : Context) : Parser Unit := do
  expectMark "("
  let (args, _) ← list ")" (r.assignment c.bracketed)
  if args.isEmpty || args.length > 2 then failure

/-- An import within an expression. -/
def importOperand (r : Nested) (c : Context) : Parser Phrase := do
  expectWord "import"
  if ← skipMark "." then
    if ← skipWord "meta" then return .foreign .importMeta
    if !((← atWord "source") || (← atWord "defer")) then failure
    takeWord
  importArguments r c
  return .foreign .importCall

/-- A reference to the base of a class, which a member access or a call follows. -/
def superOperand : Parser Phrase := do
  expectWord "super"
  flawIf !((← atMark ".") || (← atMark "[") || (← atMark "("))
  return .foreign .superBase

/-- A construction, or the target of the one that is running. -/
def construction (r : Nested) (c : Context) : Parser Phrase := do
  expectWord "new"
  if ← skipMark "." then
    expectWord "target"
    return .foreign .newTarget
  let (callee, inChain) ← r.member c
  flawIf (inChain || (← atMark "?."))
  if let .foreign .importCall := callee then flaw
  if ← atMark "(" then
    let _ ← arguments r c
  return .foreign .construction

/-- An operand without what may follow it. -/
def base (r : Nested) (c : Context) : Parser Phrase := do
  match ← token with
  | .word "new" _ => construction r c
  | .word "import" _ => importOperand r c
  | .word "super" _ => superOperand
  | _ => simpleOperand r c

/-! ## Members and calls -/

/-- The name of a member after its point. -/
def memberName (p : Phrase) (optional : Bool) : Parser Phrase := do
  match ← token with
  | .word w _ => advance; return .member p w optional
  | .hidden _ => advance; return .foreign .hiddenMember
  | _ => failure

/-- An index in brackets. -/
def memberIndex (r : Nested) (c : Context) (p : Phrase) (optional : Bool) : Parser Phrase := do
  expectMark "["
  let i ← expression r c.bracketed
  expectMark "]"
  return .index p i optional

/-- The member accesses and tagged templates after an operand. The flag says
whether an optional link was met so far. -/
def memberRest (r : Nested) (c : Context) : Nat → Phrase → Bool → Parser (Phrase × Bool)
  | 0, _, _ => failure
  | fuel + 1, p, inChain => do
    match ← token with
    | .template .. =>
      -- A chain takes no tagged template.
      flawIf inChain
      let _ ← template r c true
      memberRest r c fuel (.foreign .taggedTemplate) inChain
    | .mark "." =>
      advance
      memberRest r c fuel (← memberName p false) inChain
    | .mark "[" =>
      if c.inDecorator then return (p, inChain)
      memberRest r c fuel (← memberIndex r c p false) inChain
    | .mark "?." =>
      match (← ahead).map Stream.token with
      | some (.mark "[") =>
        if c.inDecorator then return (p, inChain)
        advance
        memberRest r c fuel (← memberIndex r c p true) true
      | some (.word ..) | some (.hidden _) =>
        advance
        memberRest r c fuel (← memberName p true) true
      -- An optional call is left to `callRest`.
      | _ => return (p, inChain)
    | _ => return (p, inChain)

/-- An operand with its member accesses. -/
def member (r : Nested) (c : Context) : Parser (Phrase × Bool) := do
  let p ← base r c
  memberRest r c (← fuel) p false

/-- The member accesses and calls after an operand. -/
def callRest (r : Nested) (c : Context) : Nat → Phrase → Bool → Parser (Phrase × Bool)
  | 0, _, _ => failure
  | fuel + 1, p, inChain => do
    let (p, inChain) ← memberRest r c (← Parser.fuel) p inChain
    if ← skipMark "?." then
      if ← atMark "(" then
        callRest r c fuel (.call p (← arguments r c) true) true
      else failure
    else if ← atMark "(" then
      callRest r c fuel (.call p (← arguments r c) false) inChain
    else return (p, inChain)

/-- **An operand** with all that follows it. An optional chain ends where the
operand does. -/
def operand (r : Nested) (c : Context) : Parser Phrase := do
  let p ← base r c
  let (p, inChain) ← callRest r c (← fuel) p false
  return if inChain then .chain p else p

end Parser

end MiniTemplate.Script
