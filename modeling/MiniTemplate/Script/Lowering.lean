import MiniTemplate.Script.Phrase

/-!
# From phrases to expression trees

Lowering drops parentheses and the extent of optional chains, and fails at the
first construct that a tree does not hold. It goes from left to right, except
that a call's arguments come before its callee; a member of an object is first
seen to be no method, then its key is lowered, then its value.
-/

namespace MiniTemplate.Script

namespace Phrase

/-- Whether a phrase may be the whole of an optional chain that a tree holds: a
call or a member access. -/
def isLink : Phrase → Bool
  | .call .. | .member .. | .index .. => true
  | _ => false

mutual

/-- The expression tree of a phrase, or the first construct that has none. -/
def lower : Phrase → Except Construct Expr
  | .name text => .ok (.identifier text)
  | .literal value => .ok (.literal value)
  | .template quasis parts => do
    return .template quasis (← lowerAll parts)
  | .array items _ => do
    return .array (← lowerItems items)
  | .object entries _ => do
    return .object (← lowerEntries entries)
  | .member base text optional => do
    return .member (← base.lower) (.identifier text) false optional
  | .index base key optional => do
    return .member (← base.lower) (← key.lower) true optional
  | .call callee arguments optional => do
    let arguments ← lowerArguments arguments
    return .call (← callee.lower) arguments optional
  | .chain body => if body.isLink then body.lower else .error .optionalChain
  | .parens body => body.lower
  | .unary operator argument => do
    return .unary operator (← argument.lower)
  | .binary operator left right => do
    return .binary operator (← left.lower) (← right.lower)
  | .logical operator left right => do
    return .logical operator (← left.lower) (← right.lower)
  | .conditional test consequent alternate => do
    return .conditional (← test.lower) (← consequent.lower) (← alternate.lower)
  | .sequence parts => do
    return .sequence (← lowerAll parts)
  | .foreign construct => .error construct

/-- The trees of several phrases. -/
def lowerAll : List Phrase → Except Construct (List Expr)
  | [] => .ok []
  | p :: rest => do
    return (← p.lower) :: (← lowerAll rest)

/-- The trees of an array's items. -/
def lowerItems : List (Item Phrase) → Except Construct (List (Option Expr))
  | [] => .ok []
  | .hole :: rest => do
    return none :: (← lowerItems rest)
  | .plain p :: rest => do
    return some (← p.lower) :: (← lowerItems rest)
  | .spread p :: rest => do
    return some (.spread (← p.lower)) :: (← lowerItems rest)

/-- The trees of a call's arguments. -/
def lowerArguments : List (Argument Phrase) → Except Construct (List Expr)
  | [] => .ok []
  | .plain p :: rest => do
    return (← p.lower) :: (← lowerArguments rest)
  | .spread p :: rest => do
    return .spread (← p.lower) :: (← lowerArguments rest)

/-- The tree of a key. -/
def lowerKey : Key Phrase → Except Construct Expr
  | .name text => .ok (.identifier text)
  | .string text => .ok (.string text)
  | .number value => .ok (.literal (.number value))
  | .bigInteger => .error .bigInteger
  | .computed p => p.lower

/-- The trees of an object's members. -/
def lowerEntries : List (Entry Phrase) → Except Construct (List (Property Expr))
  | [] => .ok []
  | .pair key value :: rest => do
    let computed := match key with
      | .computed _ => true
      | _ => false
    let key ← lowerKey key
    let value ← value.lower
    return .pair key value computed :: (← lowerEntries rest)
  | .shorthand text :: rest | .initialised text :: rest => do
    return .pair (.identifier text) (.identifier text) false :: (← lowerEntries rest)
  | .method _ :: _ => .error .objectMethod
  | .accessor key :: _ => do
    let _ ← lowerKey key
    .error .function
  | .spread p :: rest => do
    return .spread (← p.lower) :: (← lowerEntries rest)

end

end Phrase

end MiniTemplate.Script
