import MiniTemplate.Dialect.Directive
import MiniTemplate.Tree.Node

/-!
# The contract of generator trees

What a generator may rely on, as rules. `Node.breaches` lists all that a tree
breaks, in the order of a walk: a node's own rules, then its attributes, its
branches and its children. `Node.violation?` reports the first.
-/

namespace MiniTemplate.Tree

open Json (Members)

/-! ## Rules and violations -/

/-- The rules. -/
inductive Rule where
  | rawField
  | valueWithSlot
  | emptyAttributes
  | slotKind
  | conditionChain
  | transientTag
  | directiveAttribute
  deriving DecidableEq, Repr

namespace Rule

/-- All rules. -/
def all : List Rule :=
  [.rawField, .valueWithSlot, .emptyAttributes, .slotKind, .conditionChain, .transientTag,
   .directiveAttribute]

/-- The code of a rule. -/
def code : Rule → String
  | .rawField => "SIMP001"
  | .valueWithSlot => "SIMP002"
  | .emptyAttributes => "SIMP003"
  | .slotKind => "SIMP004"
  | .conditionChain => "SIMP005"
  | .transientTag => "SIMP006"
  | .directiveAttribute => "SIMP007"

/-- What a rule guarantees. -/
def guarantee : Rule → String
  | .rawField => "Parser bookkeeping and directive fields never reach the generator."
  | .valueWithSlot =>
    "An attribute carries either a literal value or an extracted expression, never both."
  | .emptyAttributes => "Static nodes omit their attribute list instead of sending it empty."
  | .slotKind => "Every expression slot holds the expression kind its position implies."
  | .conditionChain => "Condition lists start at their anchor and keep source order."
  | .transientTag => "Synthetic parser wrappers are renamed to the generic block tag."
  | .directiveAttribute => "Directive attributes are consumed by the simplifier."

end Rule

/-- A report of a broken rule. -/
structure Violation where
  code : String
  message : String
  path : String
  deriving DecidableEq, Repr

namespace Violation

/-- The guarantee that the violation takes away. -/
def guarantee (v : Violation) : String :=
  match Rule.all.find? fun r => r.code == v.code with
  | some r => r.guarantee
  | none => "Unknown invariant."

/-- The class of all violations. -/
def errorType : String := "SIMPLIFIED_AST_CONTRACT_VIOLATION"

/-- A violation in one line. -/
def text (v : Violation) : String := "[" ++ v.code ++ "] " ++ v.message ++ " (at " ++ v.path ++ ")"

/-- A violation's JSON form. -/
def toJson (v : Violation) : Json :=
  .obj [("code", .str v.code), ("errorType", .str errorType), ("message", .str v.message),
    ("guarantee", .str v.guarantee), ("path", .str v.path)]

end Violation

/-! ## Paths -/

/-- A step from a node into one of its parts. -/
inductive Step where
  | attr (index : Nat)
  | condition (index : Nat)
  | child (index : Nat)
  deriving DecidableEq, Repr

/-- A step in a path. -/
def Step.text : Step → String
  | .attr i => s!"attrsList[{i}]"
  | .condition i => s!"ifConditions[{i}]"
  | .child i => s!"children[{i}]"

/-- A path from the root. -/
def pathText (steps : List Step) : String := ".".intercalate ("root" :: steps.map Step.text)

/-- A broken rule, and where it is broken. -/
structure Breach where
  rule : Rule
  message : String
  path : List Step
  deriving DecidableEq, Repr

namespace Breach

/-- The same breach, seen from further up. -/
def below (step : Step) (b : Breach) : Breach := { b with path := step :: b.path }

/-- The report of a breach. -/
def violation (b : Breach) : Violation := ⟨b.rule.code, b.message, pathText b.path⟩

end Breach

/-- A breach here, under a condition. -/
def breachIf (p : Bool) (rule : Rule) (message : String) : List Breach :=
  if p then [⟨rule, message, []⟩] else []

/-! ## What is checked -/

/-- What a markup parser keeps for itself. -/
def bookkeepingFields : List String := ["parent", "exps", "unary", "ifProcessed"]

/-- What must not survive of a markup tree, in the order of the check. -/
def rawFields : List String :=
  bookkeepingFields ++ ["if", "elseif", "else", "_if", "_tempIf", "attrsMap"]

/-- The tag of the wrappers that a markup parser makes up. -/
def transientTag : String := "temp-node"

/-- The tag that takes its place. -/
def blockTag : String := "block"

/-- Whether members include one of a name. -/
def hasMember (ms : Members) (key : String) : Bool := ms.any fun m => m.1 == key

/-- Whether a slot is that of a text node. -/
def isTextSlot : Slot → Bool
  | .text _ => true
  | _ => false

/-- Whether a slot is that of a loop. -/
def isLoopSlot : Slot → Bool
  | .loop _ => true
  | _ => false

/-- The breaches of an attribute. -/
def Attribute.breaches (d : Dialect) (a : Attribute) : List Breach :=
  breachIf (d.isDirective a.name) .directiveAttribute
      ("Directive attribute \"" ++ a.name ++ "\" survived.")
    ++ breachIf (a.value.isSome && a.slot.isSome) .valueWithSlot
      ("Attribute \"" ++ a.name ++ "\" has both value and __exps.")
    ++ a.slot.toList.flatMap fun slot =>
      breachIf (isTextSlot slot || isLoopSlot slot) .slotKind
        ("Attribute \"" ++ a.name ++ "\" holds __exps of kind \"" ++ slot.kind ++ "\".")

/-- The breaches of conditions that start at an index. -/
def conditionBreaches : Nat → List (Condition Node) → List Breach
  | _, [] => []
  | i, c :: rest =>
    breachIf (c.target.isAnchor != (i == 0)) .conditionChain
        ("Condition " ++ toString i ++ " has a misplaced \"self\" target.")
      ++ breachIf (c.isExpression != c.expression.isSome) .conditionChain
        ("Condition " ++ toString i ++ " expression does not match isExpression.")
      ++ conditionBreaches (i + 1) rest

/-- The breaches of attributes that start at an index. -/
def attributeBreaches (d : Dialect) : Nat → List Attribute → List Breach
  | _, [] => []
  | i, a :: rest =>
    (a.breaches d).map (Breach.below (.attr i)) ++ attributeBreaches d (i + 1) rest

namespace Node

/-- The breaches of a node itself, without its parts. -/
def ownBreaches (n : Node) : List Breach :=
  (rawFields.find? (hasMember n.extra)).toList.flatMap (fun field =>
      breachIf true .rawField ("Field \"" ++ field ++ "\" survived simplification."))
    ++ breachIf (n.tag == some transientTag) .transientTag
      ("Transient tag <" ++ transientTag ++ "> was not renamed.")
    ++ breachIf (n.attributes.any List.isEmpty) .emptyAttributes "Empty attrsList was emitted."
    ++ (n.slot.toList.flatMap fun slot =>
      breachIf (!isTextSlot slot || n.kind != .text) .slotKind
        ("Node-level __exps of kind \"" ++ slot.kind ++ "\" outside a text node."))
    ++ (n.loop.toList.flatMap fun loop =>
      breachIf (!isLoopSlot loop.slot) .slotKind
        ("for.__exps has kind \"" ++ loop.slot.kind ++ "\"."))
    ++ conditionBreaches 0 n.conditionList

mutual

/-- **All breaches of a tree**, in the order of a walk. -/
def breaches (d : Dialect) : Node → List Breach
  | { kind, tag, text, attributes, slot, conditions, loop, children, extra } =>
    ownBreaches { kind, tag, text, attributes, slot, conditions, loop, children, extra }
      ++ attributeBreaches d 0 (attributes.getD []) ++ breachesOfConditions d conditions
      ++ breachesOfChildren d children

/-- The breaches of the branches. -/
def breachesOfConditions (d : Dialect) : Option (List (Condition Node)) → List Breach
  | none => []
  | some conditions => breachesOfBranches d 0 conditions

/-- The breaches of the branches of conditions that start at an index. -/
def breachesOfBranches (d : Dialect) : Nat → List (Condition Node) → List Breach
  | _, [] => []
  | i, { target, .. } :: rest =>
    (breachesOfTarget d target).map (Breach.below (.condition i))
      ++ breachesOfBranches d (i + 1) rest

/-- The breaches of a target. -/
def breachesOfTarget (d : Dialect) : Target Node → List Breach
  | .anchor => []
  | .block node => node.breaches d

/-- The breaches of the children. -/
def breachesOfChildren (d : Dialect) : Option (List Node) → List Breach
  | none => []
  | some nodes => breachesOfAll d 0 nodes

/-- The breaches of children that start at an index. -/
def breachesOfAll (d : Dialect) : Nat → List Node → List Breach
  | _, [] => []
  | i, n :: rest => (n.breaches d).map (Breach.below (.child i)) ++ breachesOfAll d (i + 1) rest

end

/-- **The first violation of the contract** in a tree. -/
def violation? (d : Dialect) (n : Node) : Option Violation :=
  (n.breaches d).head?.map Breach.violation

end Node

end MiniTemplate.Tree
