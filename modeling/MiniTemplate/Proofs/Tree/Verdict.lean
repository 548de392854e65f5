import MiniTemplate.Proofs.Tree.Breaches

/-!
# What the check decides

The contract as a condition on each node of a tree by itself, `Node.Conforms`, and the
nodes that a tree holds, `Node.Reaches`: those that children and branches lead to, in any
mixture. `Node.violation?_eq_none_iff_conforms` says that the check, which goes through a
tree once and reports the first breach, lets a tree through iff every node of it conforms.
-/

namespace MiniTemplate.Tree

variable {d : Dialect}

/-! ## The contract at a node -/

/-- The contract for an attribute: it is no directive, has a literal value or a slot but
not both, and its slot is of no kind that belongs to nodes. -/
structure Attribute.Conforms (d : Dialect) (a : Attribute) : Prop where
  name : ∀ directive, a.name ≠ d.name directive
  exclusive : ¬ (a.value.isSome = true ∧ a.slot.isSome = true)
  slot : ∀ tree, a.slot ≠ some (.text tree) ∧ a.slot ≠ some (.loop tree)

/-- The contract for a condition at an index: the first one stands for the node itself, and
the flag says whether there is an expression. -/
structure Condition.Conforms (i : Nat) (c : Condition Node) : Prop where
  target : c.target = .anchor ↔ i = 0
  expression : c.isExpression = true ↔ c.expression ≠ none

/-- **The contract for a node**, with its attributes and conditions and without the nodes
below it. -/
structure Node.Conforms (d : Dialect) (n : Node) : Prop where
  extra : ∀ m ∈ n.extra, m.1 ∉ ["parent", "exps", "unary", "ifProcessed", "if", "elseif", "else",
    "_if", "_tempIf", "attrsMap"]
  tag : n.tag ≠ some "temp-node"
  attributes : n.attributes ≠ some []
  slot : ∀ slot, n.slot = some slot → (∃ tree, slot = .text tree) ∧ n.kind = .text
  loop : ∀ loop, n.loop = some loop → ∃ tree, loop.slot = .loop tree
  conditions : ∀ (i : Nat) (c : Condition Node), n.conditionList[i]? = some c → c.Conforms i
  attributeList : ∀ a ∈ n.attributeList, a.Conforms d

theorem isTextSlot_iff {slot : Slot} : isTextSlot slot = true ↔ ∃ tree, slot = .text tree := by
  cases slot <;> simp [isTextSlot]

theorem isLoopSlot_iff {slot : Slot} : isLoopSlot slot = true ↔ ∃ tree, slot = .loop tree := by
  cases slot <;> simp [isLoopSlot]

/-- Every directive is among those that are looked through. -/
theorem isDirective_eq_false_iff {label : String} :
    d.isDirective label = false ↔ ∀ directive, label ≠ d.name directive := by
  have all : ∀ directive, directive ∈ Directive.all := by
    intro directive
    cases directive <;> decide
  simp only [Dialect.isDirective, Dialect.names, List.contains_eq_mem, List.mem_map,
    decide_eq_false_iff_not, not_exists, not_and]
  constructor
  · intro none directive same
    exact none directive (all directive) same.symm
  · intro other directive _ same
    exact other directive same.symm

theorem Attribute.clean_iff_conforms {a : Attribute} : a.Clean d ↔ a.Conforms d := by
  constructor
  · rintro ⟨authored, exclusive, slots⟩
    refine ⟨isDirective_eq_false_iff.1 authored, ?_, fun tree => ⟨?_, ?_⟩⟩
    · rintro ⟨literal, slot⟩
      rw [exclusive literal] at slot
      cases slot
    · intro same
      cases (slots _ same).1
    · intro same
      cases (slots _ same).2
  · rintro ⟨name, exclusive, slot⟩
    refine ⟨isDirective_eq_false_iff.2 name, ?_, ?_⟩
    · intro literal
      cases found : a.slot with
      | none => rfl
      | some other => exact (exclusive ⟨literal, by rw [found]; rfl⟩).elim
    · intro other same
      constructor
      · rw [Bool.eq_false_iff, ne_eq, isTextSlot_iff]
        rintro ⟨tree, rfl⟩
        exact (slot tree).1 same
      · rw [Bool.eq_false_iff, ne_eq, isLoopSlot_iff]
        rintro ⟨tree, rfl⟩
        exact (slot tree).2 same

theorem Condition.clean_iff_conforms {i : Nat} {c : Condition Node} : c.Clean i ↔ c.Conforms i := by
  have target : c.target.isAnchor = true ↔ c.target = .anchor := by
    cases c.target <;> simp [Target.isAnchor]
  have expression : c.isExpression = c.expression.isSome ↔
      (c.isExpression = true ↔ c.expression ≠ none) := by
    rw [Bool.eq_iff_iff, Option.isSome_iff_ne_none]
  constructor
  · rintro ⟨first, flag⟩
    exact ⟨target.symm.trans first, expression.1 flag⟩
  · rintro ⟨first, flag⟩
    exact ⟨target.trans first, expression.2 flag⟩

theorem Node.clean_iff_conforms {n : Node} :
    (n.Clean ∧ ∀ a ∈ n.attributeList, a.Clean d) ↔ n.Conforms d := by
  have fields : (∀ field ∈ rawFields, hasMember n.extra field = false) ↔
      ∀ m ∈ n.extra, m.1 ∉ rawFields := by
    simp only [hasMember, List.any_eq_false, beq_iff_eq]
    constructor
    · intro absent m member raw
      exact absent m.1 raw m member rfl
    · rintro apart field raw m member rfl
      exact apart m member raw
  constructor
  · rintro ⟨⟨extra, tag, attributes, slot, loop, conditions⟩, list⟩
    refine ⟨fields.1 extra, tag, attributes, fun x same => ?_, fun l same => ?_, ?_, ?_⟩
    · obtain ⟨kind, isText⟩ := slot x same
      exact ⟨isTextSlot_iff.1 kind, isText⟩
    · exact isLoopSlot_iff.1 (loop l same)
    · intro i c found
      exact Condition.clean_iff_conforms.1 (conditions i c found)
    · intro a member
      exact Attribute.clean_iff_conforms.1 (list a member)
  · rintro ⟨extra, tag, attributes, slot, loop, conditions, list⟩
    refine ⟨⟨fields.2 extra, tag, attributes, fun x same => ?_, fun l same => ?_, ?_⟩, ?_⟩
    · obtain ⟨kind, isText⟩ := slot x same
      exact ⟨isTextSlot_iff.2 kind, isText⟩
    · exact isLoopSlot_iff.2 (loop l same)
    · intro i c found
      exact Condition.clean_iff_conforms.2 (conditions i c found)
    · intro a member
      exact Attribute.clean_iff_conforms.2 (list a member)

/-! ## The nodes of a tree -/

namespace Node

/-- **The nodes that a tree holds**: its root, and with a node the children of that and the
branches that its conditions lead to. -/
inductive Reaches (root : Node) : Node → Prop where
  | root : Reaches root root
  | child {n c : Node} (above : Reaches root n) (member : c ∈ n.childList) : Reaches root c
  | branch {n b : Node} {c : Condition Node} (above : Reaches root n) (member : c ∈ n.conditionList)
      (target : c.target = .block b) : Reaches root b

theorem Reaches.trans {root n m : Node} (first : Reaches root n) (second : Reaches n m) :
    Reaches root m := by
  induction second with
  | root => exact first
  | child _ member ih => exact .child ih member
  | branch _ member target ih => exact .branch ih member target

theorem sizeOf_child_lt {n c : Node} (child : c ∈ n.childList) : sizeOf c < sizeOf n := by
  obtain ⟨kind, tag, text, attributes, slot, conditions, loop, children, extra⟩ := n
  cases children with
  | none => cases child
  | some nodes =>
    have smaller := List.sizeOf_lt_of_mem (show c ∈ nodes from child)
    simp only [Node.mk.sizeOf_spec, Option.some.sizeOf_spec]
    omega

theorem sizeOf_branch_lt {n b : Node} {c : Condition Node} (member : c ∈ n.conditionList)
    (target : c.target = .block b) : sizeOf b < sizeOf n := by
  obtain ⟨kind, tag, text, attributes, slot, conditions, loop, children, extra⟩ := n
  obtain ⟨isExpression, goal, expression⟩ := c
  subst target
  cases conditions with
  | none => cases member
  | some list =>
    have smaller := List.sizeOf_lt_of_mem
      (show ({ isExpression, target := .block b, expression } : Condition Node) ∈ list from member)
    simp only [Condition.mk.sizeOf_spec, Target.block.sizeOf_spec] at smaller
    simp only [Node.mk.sizeOf_spec, Option.some.sizeOf_spec]
    omega

/-- A property that a node has if its children and branches have it holds of every node. -/
theorem induction_on_parts {P : Node → Prop} (n : Node)
    (step : ∀ n : Node, (∀ c ∈ n.childList, P c) →
      (∀ c ∈ n.conditionList, ∀ b, c.target = .block b → P b) → P n) : P n := by
  generalize size : sizeOf n = m
  induction m using Nat.strongRecOn generalizing n with
  | ind m ih =>
    subst size
    apply step
    · intro c child
      exact ih (sizeOf c) (sizeOf_child_lt child) c rfl
    · intro c member b target
      exact ih (sizeOf b) (sizeOf_branch_lt member target) b rfl

/-- What is reported of a node includes what is reported of the nodes below it. -/
theorem breaches_eq_nil_of_reaches {root n : Node} (reached : Reaches root n)
    (clear : root.breaches d = []) : n.breaches d = [] := by
  induction reached with
  | root => exact clear
  | child _ member ih =>
    obtain ⟨-, -, -, children⟩ := breaches_eq_nil_iff.1 ih
    exact children _ member
  | branch _ member target ih =>
    obtain ⟨-, -, branches, -⟩ := breaches_eq_nil_iff.1 ih
    exact branches _ member _ target

/-- Nothing is reported of a tree in which every node conforms. -/
theorem breaches_eq_nil_of_conforms (root : Node) (all : ∀ n, Reaches root n → n.Conforms d) :
    root.breaches d = [] := by
  induction root using induction_on_parts with
  | step root children branches =>
    obtain ⟨own, attributes⟩ := clean_iff_conforms.2 (all root .root)
    refine breaches_eq_nil_iff.2 ⟨own, attributes, ?_, ?_⟩
    · intro c member b target
      have first : Reaches root b := .branch .root member target
      exact branches c member b target fun n below => all n (first.trans below)
    · intro c member
      have first : Reaches root c := .child .root member
      exact children c member fun n below => all n (first.trans below)

/-- **The check decides the contract**: it reports nothing of a tree iff every node that the
tree holds conforms, whatever the names of the directives are. -/
theorem violation?_eq_none_iff_conforms (d : Dialect) (root : Node) :
    root.violation? d = none ↔ ∀ n, Reaches root n → n.Conforms d := by
  rw [violation?_eq_none_iff]
  constructor
  · intro clear n reached
    obtain ⟨own, attributes, -, -⟩ := breaches_eq_nil_iff.1 (breaches_eq_nil_of_reaches reached clear)
    exact clean_iff_conforms.1 ⟨own, attributes⟩
  · intro all
    exact breaches_eq_nil_of_conforms root all

end Node

end MiniTemplate.Tree
