import MiniTemplate.Tree.Contract

/-!
# Errors of the pass

Why a template is not simplified, and what is said about it.
-/

namespace MiniTemplate

/-- Why a template is not simplified. -/
inductive Error where
  /-- A source is no expression. -/
  | expression (source detail : String)
  /-- An expression holds a construct that trees do not hold. -/
  | unsupported (construct source : String)
  | unknownMode (name : String)
  /-- The template cannot be read. -/
  | unreadable (detail : String)
  /-- The result cannot be written. -/
  | unwritable (detail : String)
  /-- The result breaks the contract. -/
  | violation (violation : Tree.Violation)
  deriving DecidableEq, Repr

/-- The text of an error. -/
def Error.message : Error → String
  | .expression source detail => "Failed to parse expression \x60" ++ source ++ "\x60: " ++ detail
  | .unsupported construct source =>
    "Unsupported " ++ construct ++ " in expression \x60" ++ source ++ "\x60"
  | .unknownMode name => "Unknown template mode: " ++ name
  | .unreadable detail => "Invalid template AST: " ++ detail
  | .unwritable detail => "Failed to serialize simplified AST: " ++ detail
  | .violation v => "Simplified AST violates output contract: " ++ v.text

end MiniTemplate
