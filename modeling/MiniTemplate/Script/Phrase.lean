import MiniTemplate.Script.Expr

/-!
# Phrases

A phrase is an expression as it is written: parentheses stay, an optional chain
shows how far it extends, and a shorthand member stays apart from a full one.
What an expression tree cannot hold is a `Construct`; a phrase keeps only which
one it is, since nothing below it matters any more.
-/

namespace MiniTemplate.Script

/-- A construct of the language that expression trees do not hold. -/
inductive Construct where
  | function
  | assignment
  | compoundAssignment
  | update
  | construction
  | this
  | regularExpression
  | bigInteger
  | taggedTemplate
  | classBody
  | await
  | yield
  | objectMethod
  | optionalChain
  | hiddenMember
  | hiddenTest
  | importCall
  | importMeta
  | newTarget
  | superBase
  deriving DecidableEq, Repr

/-- The name of a construct in messages. -/
def Construct.label : Construct → String
  | .function => "function"
  | .assignment | .compoundAssignment => "assignment"
  | .update => "update expression"
  | .construction => "new expression"
  | .this => "this"
  | .regularExpression => "regular expression"
  | .bigInteger => "bigint literal"
  | .taggedTemplate => "tagged template"
  | .classBody => "class expression"
  | .await | .yield => "await/yield"
  | .objectMethod => "object method"
  | .optionalChain => "optional chain"
  | .hiddenMember | .hiddenTest | .importCall | .importMeta | .newTarget | .superBase =>
    "expression"

/-- An item of an array. -/
inductive Item (α : Type) where
  | hole
  | plain (value : α)
  | spread (value : α)
  deriving Repr

/-- An argument of a call. -/
inductive Argument (α : Type) where
  | plain (value : α)
  | spread (value : α)
  deriving Repr

/-- The key of an object's member. -/
inductive Key (α : Type) where
  | name (text : String)
  | string (text : String)
  | number (value : Binary64)
  | bigInteger
  | computed (value : α)
  deriving Repr

/-- A member of an object as it is written. -/
inductive Entry (α : Type) where
  | pair (key : Key α) (value : α)
  | shorthand (name : String)
  /-- A name with an initialiser, which only an assignment pattern may hold. -/
  | initialised (name : String)
  | method (key : Key α)
  | accessor (key : Key α)
  | spread (value : α)
  deriving Repr

/-- An expression as it is written. -/
inductive Phrase where
  | name (text : String)
  | literal (value : Literal)
  | template (quasis : List String) (parts : List Phrase)
  /-- An array, and whether a comma follows its last item. -/
  | array (items : List (Item Phrase)) (comma : Bool)
  /-- An object, and whether a comma follows its last member. -/
  | object (entries : List (Entry Phrase)) (comma : Bool)
  | member (object : Phrase) (name : String) (optional : Bool)
  | index (object index : Phrase) (optional : Bool)
  | call (callee : Phrase) (arguments : List (Argument Phrase)) (optional : Bool)
  /-- The whole of an optional chain. -/
  | chain (body : Phrase)
  | parens (body : Phrase)
  | unary (operator : String) (argument : Phrase)
  | binary (operator : String) (left right : Phrase)
  | logical (operator : String) (left right : Phrase)
  | conditional (test consequent alternate : Phrase)
  | sequence (parts : List Phrase)
  | foreign (construct : Construct)
  deriving Repr

end MiniTemplate.Script
