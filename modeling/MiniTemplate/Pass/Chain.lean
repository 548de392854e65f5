import MiniTemplate.Markup.Node
import MiniTemplate.Tree.Node

/-!
# Chains of conditions

An `if` node and the `elif` and `else` nodes after it form a chain. A branch
reaches the `if` past text, placeholders and other branches; any other element in
between leaves it an orphan, which stands for itself.
-/

namespace MiniTemplate.Pass

open Markup (Node)
open Script (Expr)

/-- The part of a node in a chain. -/
inductive Role where
  | start (source : String)
  /-- A branch, with its condition unless it is the last. -/
  | branch (source : Option String)
  | none
  deriving DecidableEq, Repr

/-- The role of a node: the first directive that it has counts. -/
def Role.of (n : Node) : Role :=
  match n.ifGuard, n.elseIfGuard with
  | some guard, _ => .start guard.source
  | .none, some guard => .branch (some guard.source)
  | .none, .none => if n.isElse then .branch .none else .none

/-- Whether a branch after a node reaches the start of a chain, given whether one at
the node's own place does. -/
def reachAfter (reach : Bool) (n : Node) : Bool :=
  if n.isPlaceholder then reach
  else match Role.of n with
    | .start _ => true
    | .branch _ => reach
    | .none => n.isText && reach

/-- Whether a node is known not to be rendered. -/
def isDead (n : Node) : Bool := n.staticIf == some false

/-- What became of a child. -/
inductive Placed where
  /-- A placeholder. -/
  | vacant
  /-- The start of a chain. -/
  | start (expression : Expr) (node : Tree.Node) (dead : Bool)
  /-- A branch of the chain that goes on here. -/
  | branch (condition : Tree.Condition Tree.Node)
  /-- A node that belongs to no chain. -/
  | plain (node : Tree.Node) (dead : Bool)

/-- A node with the conditions of a chain: its own, and those of its branches. -/
def anchored (expression : Expr) (node : Tree.Node) (branches : List (Tree.Condition Tree.Node)) :
    Tree.Node :=
  { node with conditions := some (.anchor expression :: branches) }

/-- A node in front of others, unless it is dead. -/
def keepUnless (dead : Bool) (node : Tree.Node) (rest : List Tree.Node) : List Tree.Node :=
  if dead then rest else node :: rest

/-- The branches that reach further back, and the nodes that stay. -/
def gather : List Placed → List (Tree.Condition Tree.Node) × List Tree.Node
  | [] => ([], [])
  | p :: rest =>
    let (branches, nodes) := gather rest
    match p with
    | .vacant => (branches, nodes)
    -- A dead start takes its branches with it.
    | .start expression node dead => ([], keepUnless dead (anchored expression node branches) nodes)
    | .branch condition => (condition :: branches, nodes)
    | .plain node dead => (branches, keepUnless dead node nodes)

/-- The nodes that stay of a list of children, chains folded. -/
def assemble (placed : List Placed) : List Tree.Node := (gather placed).2

end MiniTemplate.Pass
