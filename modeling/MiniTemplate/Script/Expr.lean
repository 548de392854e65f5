import MiniTemplate.Binary64.Basic

/-!
# Expression trees

The trees that the generator reads: expressions without side effects beyond
calls. A hole of an array is `none`. A spread stands in arrays and calls; objects
have spreads of their own. Operators are kept by their spelling.
-/

namespace MiniTemplate.Script

/-- A literal value. -/
inductive Literal where
  | bool (value : Bool)
  | number (value : Binary64)
  | string (value : String)
  | null
  deriving DecidableEq, Repr, Inhabited

/-- A member of an object: a key with a value, or the members of another object. -/
inductive Property (α : Type) where
  | pair (key value : α) (computed : Bool)
  | spread (argument : α)
  deriving DecidableEq, Repr

/-- An expression tree. -/
inductive Expr where
  | identifier (name : String)
  | literal (value : Literal)
  | template (quasis : List String) (expressions : List Expr)
  | array (elements : List (Option Expr))
  | object (properties : List (Property Expr))
  | member (object property : Expr) (computed optional : Bool)
  | call (callee : Expr) (arguments : List Expr) (optional : Bool)
  | unary (operator : String) (argument : Expr)
  | binary (operator : String) (left right : Expr)
  | logical (operator : String) (left right : Expr)
  | conditional (test consequent alternate : Expr)
  | sequence (expressions : List Expr)
  | spread (argument : Expr)
  deriving Repr, Inhabited

namespace Expr

/-- A string literal. -/
def string (value : String) : Expr := .literal (.string value)

end Expr

end MiniTemplate.Script
