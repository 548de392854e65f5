import MiniTemplate.Markup.Kind
import MiniTemplate.Tree.Slot

/-!
# Generator trees

The trees that the pass hands to a generator. Dynamic values are expressions in
slots. A node that may be left out has conditions: the first stands for the node
itself, each further one for a branch that takes its place.
-/

namespace MiniTemplate.Tree

open Json (Members)
open Script (Expr)

/-- An attribute: a literal value or extracted expressions. -/
structure Attribute where
  name : String
  value : Option String := none
  slot : Option Slot := none
  extra : Members := []
  deriving Repr

/-- A loop. -/
structure Loop where
  slot : Slot
  index : Option String := none
  item : Option String := none
  key : Option String := none
  extra : Members := []
  deriving Repr

/-- What a condition decides on: the node that holds it, or a branch. -/
inductive Target (α : Type) where
  | anchor
  | block (node : α)
  deriving Repr

/-- A condition; without an expression it always holds. -/
structure Condition (α : Type) where
  isExpression : Bool
  target : Target α
  expression : Option Expr
  deriving Repr

/-- A node. -/
structure Node where
  kind : NodeKind
  tag : Option String := none
  text : Option String := none
  attributes : Option (List Attribute) := none
  slot : Option Slot := none
  conditions : Option (List (Condition Node)) := none
  loop : Option Loop := none
  children : Option (List Node) := none
  extra : Members := []
  deriving Repr

namespace Target

/-- Whether a target is the node itself. -/
def isAnchor {α : Type} : Target α → Bool
  | .anchor => true
  | .block _ => false

end Target

namespace Condition

/-- The condition of a node on itself. -/
def anchor {α : Type} (expression : Expr) : Condition α :=
  { isExpression := true, target := .anchor, expression := some expression }

/-- The condition of a branch; the last branch may have none. -/
def branch {α : Type} (expression : Option Expr) (node : α) : Condition α :=
  { isExpression := expression.isSome, target := .block node, expression }

end Condition

namespace Node

/-- The attributes of a node. -/
def attributeList (n : Node) : List Attribute := n.attributes.getD []

/-- The conditions of a node. -/
def conditionList (n : Node) : List (Condition Node) := n.conditions.getD []

/-- The children of a node. -/
def childList (n : Node) : List Node := n.children.getD []

end Node

end MiniTemplate.Tree
