import MiniTemplate.Tree.Node

/-!
# Walks over generator trees

A walk comes to a node, then to its attributes, its conditions with their
branches, and its children. `Node.walk` lists the nodes, `Node.events` all that
is met, and may stop at nodes with certain tags.
-/

namespace MiniTemplate.Tree

/-- What a walk meets. -/
inductive Event where
  | node (node : Node)
  | attr (attr : Attribute)
  | condition (isExpression isAnchor : Bool)
  | children (count : Nat)

namespace Node

mutual

/-- The nodes of a tree in the order of the walk. -/
def walk : Node → List Node
  | { kind, tag, text, attributes, slot, conditions, loop, children, extra } =>
    { kind, tag, text, attributes, slot, conditions, loop, children, extra }
      :: (walkConditions conditions ++ walkChildren children)

/-- The nodes of the branches. -/
def walkConditions : Option (List (Condition Node)) → List Node
  | none => []
  | some conditions => walkBranches conditions

/-- The nodes of the branches of a list of conditions. -/
def walkBranches : List (Condition Node) → List Node
  | [] => []
  | { target, .. } :: rest => walkTarget target ++ walkBranches rest

/-- The nodes of a target. -/
def walkTarget : Target Node → List Node
  | .anchor => []
  | .block node => node.walk

/-- The nodes of the children. -/
def walkChildren : Option (List Node) → List Node
  | none => []
  | some nodes => walkAll nodes

/-- The nodes of several trees. -/
def walkAll : List Node → List Node
  | [] => []
  | n :: rest => n.walk ++ walkAll rest

end

/-- The number of nodes in a tree. -/
def count (n : Node) : Nat := n.walk.length

/-- The names of all attributes in a tree. -/
def attributeNames (n : Node) : List String :=
  n.walk.flatMap fun m => m.attributeList.map Attribute.name

/-- Whether a walk goes no further at a node with this tag. -/
def stopsAt (stops : List String) (tag : Option String) : Bool := tag.any stops.contains

mutual

/-- All that a walk meets, if it goes no further at nodes with certain tags. -/
def events (stops : List String) : Node → List Event
  | { kind, tag, text, attributes, slot, conditions, loop, children, extra } =>
    .node { kind, tag, text, attributes, slot, conditions, loop, children, extra } ::
      if stopsAt stops tag then []
      else (attributes.getD []).map .attr ++ conditionEvents stops conditions
        ++ childrenEvents stops children

/-- What a walk meets at the conditions of a node. -/
def conditionEvents (stops : List String) : Option (List (Condition Node)) → List Event
  | none => []
  | some conditions => branchEvents stops conditions

/-- What a walk meets at a list of conditions. -/
def branchEvents (stops : List String) : List (Condition Node) → List Event
  | [] => []
  | { isExpression, target, .. } :: rest =>
    .condition isExpression target.isAnchor
      :: (targetEvents stops target ++ branchEvents stops rest)

/-- What a walk meets at a target. -/
def targetEvents (stops : List String) : Target Node → List Event
  | .anchor => []
  | .block node => node.events stops

/-- What a walk meets at the children of a node. -/
def childrenEvents (stops : List String) : Option (List Node) → List Event
  | none => [.children 0]
  | some nodes => .children nodes.length :: allEvents stops nodes

/-- What a walk meets at several trees. -/
def allEvents (stops : List String) : List Node → List Event
  | [] => []
  | n :: rest => n.events stops ++ allEvents stops rest

end

end Node

end MiniTemplate.Tree
