import MiniTemplate.Dialect.Mode
import MiniTemplate.Pass.Attribute
import MiniTemplate.Pass.Chain

/-!
# The pass

`simplify` turns a markup tree into a generator tree. For each node it takes the
loop first, then the attributes, the text and the children; the children are
taken in order, and the chains among them are folded.
-/

namespace MiniTemplate.Pass

open Json (Members)
open Markup (Node)
open Script (Expr)
open MiniTemplate.Tree (bookkeepingFields transientTag blockTag)

/-- The tag of a node in the result. -/
def simplifyTag (tag : String) : String := if tag == transientTag then blockTag else tag

/-- What stays of the members that a node does not declare. -/
def simplifyExtra (extra : Members) : Members :=
  extra.filter fun m => !(bookkeepingFields.contains m.1 || m.1 == Node.placeholderMark)

/-- A loop, simplified. -/
def simplifyLoop (f : Frontend) (loop : Markup.Loop) : Trace Tree.Loop := do
  let tree ← f.parse loop.source
  return {
    slot := .loop tree
    index := loop.index
    item := loop.item
    key := loop.key
    extra := loop.extra }

/-- A loop that may be absent, simplified. -/
def simplifyLoop? (f : Frontend) : Option Markup.Loop → Trace (Option Tree.Loop)
  | none => return none
  | some loop => do return some (← simplifyLoop f loop)

/-- The text of a node and the slot that takes its place; only text nodes hold
expressions. -/
def simplifyText (f : Frontend) (kind : NodeKind) (text : Option String) :
    Trace (Option String × Option Slot) := do
  match kind, text with
  | .text, some raw =>
    match ← f.extract raw with
    | some tree => return (none, some (.text tree))
    | none => return (some raw, none)
  | _, _ => return (text, none)

mutual

/-- **A node, simplified**, without regard to its part in a chain. -/
def simplifyNode (f : Frontend) (s : Spelling) : Node → Trace Tree.Node
  | { kind, tag, text, attributes, children, loop, extra, .. } => do
    -- The order of these steps is the order in which the front end is asked.
    let loop ← simplifyLoop? f loop
    let attributes ← simplifyAttributes f s (attributes.getD [])
    let (text, slot) ← simplifyText f kind text
    let children ← simplifyChildren f s children
    return {
      kind
      tag := tag.map simplifyTag
      text
      attributes
      slot
      loop
      children
      extra := simplifyExtra extra }

/-- The children of a node, simplified; none if nothing is left. -/
def simplifyChildren (f : Frontend) (s : Spelling) :
    Option (List Node) → Trace (Option (List Tree.Node))
  | none => return none
  | some nodes => do
    return unlessEmpty (assemble (← placeAll f s false nodes))

/-- What becomes of each of several siblings; says first whether a branch at the
first of them reaches the start of a chain. -/
def placeAll (f : Frontend) (s : Spelling) (reach : Bool) : List Node → Trace (List Placed)
  | [] => return []
  | n :: rest => do
    let placed ← (
      if n.isPlaceholder then pure .vacant
      else match Role.of n with
        | .start source => do
          let tree ← f.parse source
          return .start tree (← simplifyNode f s n) (isDead n)
        | .branch source => do
          if reach then
            let tree ← f.parseOptional source
            return .branch (.branch tree (← simplifyNode f s n))
          -- The condition of an orphan is never asked about.
          else return .plain (← simplifyNode f s n) (isDead n)
        | .none => do
          return .plain (← simplifyNode f s n) (isDead n))
    return placed :: (← placeAll f s (reachAfter reach n) rest)

end

/-- The root of a tree, simplified; it may start a chain of its own. -/
def simplifyRoot (f : Frontend) (s : Spelling) (root : Node) : Trace Tree.Node := do
  match Role.of root with
  | .start source =>
    let tree ← f.parse source
    return anchored tree (← simplifyNode f s root) []
  | _ => simplifyNode f s root

/-- A tree that meets the contract, if that is asked for. -/
def validated (options : Options) (tree : Tree.Node) : Except Error Tree.Node :=
  if options.validates then
    match tree.violation? options.mode.spelling with
    | some violation => .error (.violation violation)
    | none => .ok tree
  else .ok tree

/-- The pass with a given front end, and what it asks of that. -/
def simplifyTraced (f : Frontend) (options : Options) (root : Node) : Trace Tree.Node := do
  let tree ← simplifyRoot f options.mode.spelling root
  ⟨[], validated options tree⟩

/-- The pass with a given front end. -/
def simplifyWith (f : Frontend) (options : Options) (root : Node) : Except Error Tree.Node :=
  (simplifyTraced f options root).result

/-- **The pass.** -/
def simplify (options : Options) (root : Node) : Except Error Tree.Node :=
  simplifyWith .standard options root

end MiniTemplate.Pass
