import MiniTemplate.Script.Grammar.Declaration

/-!
# Imports and exports

Import and export declarations stand in lists of statements like any other
statement.
-/

namespace MiniTemplate.Script

namespace Parser

/-- The text that names a module. -/
def moduleName : Parser Unit := do
  match ← token with
  | .string _ => advance
  | _ => failure

/-- The name of something that a module offers; says whether it may be the name of
something declared. -/
def offeredName : Parser Bool := do
  match ← token with
  | .word w _ => advance; return isName w
  | .string _ => advance; return false
  | _ => failure

/-- An attribute of an import. -/
def importAttribute : Parser Unit := do
  let _ ← offeredName
  expectMark ":"
  moduleName

/-- The attributes of an import, if it has any, and the end of the declaration. -/
def importEnd : Parser Unit := do
  if (← atWord "with") || ((← atWord "assert") && !(← get).newline) then
    takeWord
    expectMark "\x7b"
    let _ ← list "\x7d" importAttribute
  semicolon

/-- The module that a declaration is about. -/
def fromModule : Parser Unit := do
  expectWord "from"
  moduleName
  importEnd

/-- One imported name, with the name it is bound to. -/
def importedName (c : Context) : Parser Unit := do
  let first ← token
  let mayBind ← offeredName
  if ← skipWord "as" then
    let _ ← bindingName c
  else match first with
    | .word w _ => if mayBind then flawIf (c.claims w) else failure
    | _ => failure

/-- All that a module offers under one name, or some of it under their own names. -/
def importedNames (c : Context) : Parser Unit := do
  if ← skipMark "*" then
    expectWord "as"
    let _ ← bindingName c
  else
    expectMark "\x7b"
    let _ ← list "\x7d" (importedName c)

/-- Whether the word at hand names the phase of an import rather than something
imported. -/
def atPhase : Parser Bool := do
  match ← ahead with
  | none => return false
  | some s =>
    if ← atWord "defer" then return s.token == .mark "*"
    if ← atWord "source" then
      match s.token with
      | .word w _ => return w != "from" || s.next?.any (·.token.isWord "from")
      | _ => return false
    return false

/-- An import declaration. -/
def importDeclaration (c : Context) : Parser Unit := do
  expectWord "import"
  match ← token with
  | .string _ =>
    moduleName
    importEnd
  | _ =>
    if ← atPhase then takeWord
    match ← token with
    | .word .. =>
      let _ ← bindingName c
      if ← skipMark "," then importedNames c
    | _ => importedNames c
    fromModule

/-! ## Exports -/

/-- One exported name; says whether it may be the name of something declared. -/
def exportedName : Parser Bool := do
  let mayBind ← offeredName
  if ← skipWord "as" then
    let _ ← offeredName
  return mayBind

/-- A function or a class, if one is at hand. -/
def namedDefinition? (r : Nested) (c : Context) (named : Bool) : Parser Bool := do
  if ← atWord "function" then
    let _ ← function r c false named
    return true
  if ← atAsyncFunction then
    takeWord
    let _ ← function r c true named
    return true
  if (← atMark "@") || (← atWord "class") then
    decorators r c (← fuel)
    classTail r c named
    return true
  return false

/-- An exported declaration. -/
def exportedDeclaration (r : Nested) (c : Context) : Parser Unit := do
  if ← atWord "let" then declaration r c .list .blockScoped
  else match ← declared? c false with
    | some kind => declaration r c .list kind
    | none => if ← namedDefinition? r c true then return else failure

/-- An export declaration. -/
def exportDeclaration (r : Nested) (c : Context) : Parser Unit := do
  expectWord "export"
  if ← skipMark "*" then
    if ← skipWord "as" then
      let _ ← offeredName
    fromModule
  else if ← skipMark "\x7b" then
    let (names, _) ← list "\x7d" exportedName
    if ← atWord "from" then fromModule
    else
      flawIf (names.contains false)
      semicolon
  else if ← skipWord "default" then
    if ← namedDefinition? r c false then return
    let _ ← r.assignment c
    semicolon
  else exportedDeclaration r c

end Parser

end MiniTemplate.Script
