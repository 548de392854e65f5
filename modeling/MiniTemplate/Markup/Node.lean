import MiniTemplate.Markup.Kind
import MiniTemplate.Tree.Slot

/-!
# Markup trees

The trees that a markup parser hands over. They declare what the pass reads;
whatever else a parser says about a node, an attribute or a loop is kept, in
order, as `extra`.
-/

namespace MiniTemplate.Markup

open Json (Members)

/-- The condition of an `if` or `elif` directive: its text, and its expression
without the delimiters. -/
structure Guard where
  raw : Option String := none
  source : String
  deriving DecidableEq, Repr

/-- A loop directive. -/
structure Loop where
  raw : Option String := none
  source : String
  index : Option String := none
  item : Option String := none
  key : Option String := none
  extra : Members := []
  deriving Repr

/-- An attribute. -/
structure Attribute where
  name : String
  value : Option String := none
  staticClass : Option String := none
  dynamicClass : Option String := none
  staticStyle : Option String := none
  dynamicStyle : Option String := none
  /-- The handlers of each event, in the order of writing. -/
  events : Option (List (String × Option (List String))) := none
  /-- What an earlier stage has extracted. -/
  slot : Option Slot := none
  extra : Members := []
  deriving Repr

/-- A node. -/
structure Node where
  kind : NodeKind
  tag : Option String := none
  text : Option String := none
  attributes : Option (List Attribute) := none
  /-- The attributes by name; their order has no meaning and is that of the names. -/
  attributeMap : Option Members := none
  children : Option (List Node) := none
  ifGuard : Option Guard := none
  elseIfGuard : Option Guard := none
  isElse : Bool := false
  loop : Option Loop := none
  /-- What the condition is known to be, if it is. -/
  staticIf : Option Bool := none
  extra : Members := []
  deriving Repr

namespace Node

/-- An element without content. -/
def element (tag : String) : Node := { kind := .element, tag := some tag }

/-- A text node. -/
def ofText (text : String) : Node := { kind := .text, text := some text }

/-- The member that marks a node as a placeholder: one whose content the parser has
moved elsewhere. -/
def placeholderMark : String := "_tempIf"

/-- Whether a node is a placeholder. -/
def isPlaceholder (n : Node) : Bool :=
  match Members.get? n.extra placeholderMark with
  | some (.bool b) => b
  | _ => false

/-- Whether a node is text. -/
def isText (n : Node) : Bool := n.kind == .text

/-- The children of a node. -/
def childList (n : Node) : List Node := n.children.getD []

/-- The attributes of a node. -/
def attributeList (n : Node) : List Attribute := n.attributes.getD []

end Node

end MiniTemplate.Markup
