import MiniTemplate.Tree.Contract

/-!
# Trees without breaches

The rules of the contract as predicates on an attribute and on a node, apart from
the messages and paths of the check. `Node.breaches_eq_nil_iff` unfolds the check at
one node: nothing is reported iff the node and its attributes keep the rules and
nothing is reported further down.
-/

namespace MiniTemplate.Tree

variable {d : Dialect}

@[simp] theorem breachIf_eq_nil_iff {p : Bool} {rule : Rule} {message : String} :
    breachIf p rule message = [] ↔ p = false := by
  cases p with
  | true => simp [breachIf]
  | false => simp [breachIf]

/-! ## Attributes -/

/-- The rules for an attribute. -/
structure Attribute.Clean (d : Dialect) (a : Attribute) : Prop where
  authored : d.isDirective a.name = false
  exclusive : a.value.isSome = true → a.slot = none
  slots : ∀ slot, a.slot = some slot → isTextSlot slot = false ∧ isLoopSlot slot = false

theorem Attribute.breaches_eq_nil_iff {a : Attribute} : a.breaches d = [] ↔ a.Clean d := by
  simp only [Attribute.breaches, List.append_eq_nil_iff, breachIf_eq_nil_iff, List.flatMap_eq_nil_iff,
    Option.mem_toList, Bool.or_eq_false_iff, Bool.and_eq_false_iff]
  constructor
  · rintro ⟨⟨authored, exclusive⟩, slots⟩
    refine ⟨authored, fun literal => ?_, slots⟩
    rcases exclusive with absent | absent
    · rw [literal] at absent
      cases absent
    · exact Option.isSome_eq_false_iff.1 absent |> Option.isNone_iff_eq_none.1
  · rintro ⟨authored, exclusive, slots⟩
    refine ⟨⟨authored, ?_⟩, slots⟩
    cases literal : a.value.isSome with
    | false => exact Or.inl rfl
    | true => exact Or.inr (by rw [exclusive literal]; rfl)

theorem attributeBreaches_eq_nil_iff {i : Nat} {as : List Attribute} :
    attributeBreaches d i as = [] ↔ ∀ a ∈ as, a.Clean d := by
  induction as generalizing i with
  | nil => simp [attributeBreaches]
  | cons a as ih =>
    simp only [attributeBreaches, List.append_eq_nil_iff, List.map_eq_nil_iff, ih,
      Attribute.breaches_eq_nil_iff, List.forall_mem_cons]

/-! ## Conditions -/

/-- The rules for a condition at an index. -/
structure Condition.Clean (i : Nat) (c : Condition Node) : Prop where
  target : c.target.isAnchor = true ↔ i = 0
  expression : c.isExpression = c.expression.isSome

theorem conditionBreaches_eq_nil_iff {i : Nat} {cs : List (Condition Node)} :
    conditionBreaches i cs = [] ↔ ∀ (k : Nat) (c : Condition Node), cs[k]? = some c → c.Clean (i + k) := by
  induction cs generalizing i with
  | nil => simp [conditionBreaches]
  | cons c cs ih =>
    simp only [conditionBreaches, List.append_eq_nil_iff, breachIf_eq_nil_iff, ih, bne_eq_false_iff_eq]
    constructor
    · rintro ⟨⟨target, expression⟩, rest⟩ k d found
      cases k with
      | zero =>
        simp only [List.getElem?_cons_zero, Option.some.injEq] at found
        subst found
        exact ⟨by rw [target]; simp, expression⟩
      | succ k =>
        have later := rest k d (by simpa using found)
        rw [show i + (k + 1) = i + 1 + k by omega]
        exact later
    · intro all
      have first := all 0 c rfl
      refine ⟨⟨?_, first.expression⟩, fun k d found => ?_⟩
      · rw [Bool.eq_iff_iff, first.target]
        simp
      · rw [show i + 1 + k = i + (k + 1) by omega]
        exact all (k + 1) d (by simpa using found)

/-! ## Nodes -/

namespace Node

/-- The rules for a node itself, without its parts. -/
structure Clean (n : Node) : Prop where
  fields : ∀ field ∈ rawFields, hasMember n.extra field = false
  tag : n.tag ≠ some transientTag
  attributes : n.attributes ≠ some []
  slot : ∀ slot, n.slot = some slot → isTextSlot slot = true ∧ n.kind = .text
  loop : ∀ loop, n.loop = some loop → isLoopSlot loop.slot = true
  conditions : ∀ (k : Nat) (c : Condition Node), n.conditionList[k]? = some c → c.Clean k

theorem ownBreaches_eq_nil_iff {n : Node} : n.ownBreaches = [] ↔ n.Clean := by
  have field : (∀ field, rawFields.find? (hasMember n.extra) = some field → true = false) ↔
      ∀ field ∈ rawFields, hasMember n.extra field = false := by
    cases found : rawFields.find? (hasMember n.extra) with
    | none =>
      have absent := List.find?_eq_none.1 found
      simpa using absent
    | some field =>
      have member := List.mem_of_find?_eq_some found
      have present := List.find?_some found
      constructor
      · intro none
        cases none field rfl
      · intro absent
        rw [absent field member] at present
        cases present
  have empty : n.attributes.any List.isEmpty = false ↔ n.attributes ≠ some [] := by
    cases n.attributes with
    | none => simp
    | some as => simp
  simp only [ownBreaches, List.append_eq_nil_iff, breachIf_eq_nil_iff, List.flatMap_eq_nil_iff,
    Option.mem_toList, conditionBreaches_eq_nil_iff, Nat.zero_add, Bool.or_eq_false_iff,
    Bool.not_eq_false', bne_eq_false_iff_eq, beq_eq_false_iff_ne, empty]
  rw [field]
  constructor
  · rintro ⟨⟨⟨⟨⟨fields, tag⟩, attributes⟩, slot⟩, loop⟩, conditions⟩
    exact ⟨fields, tag, attributes, slot, loop, conditions⟩
  · rintro ⟨fields, tag, attributes, slot, loop, conditions⟩
    exact ⟨⟨⟨⟨⟨fields, tag⟩, attributes⟩, slot⟩, loop⟩, conditions⟩

theorem breachesOfBranches_eq_nil_iff {i : Nat} {cs : List (Condition Node)} :
    breachesOfBranches d i cs = [] ↔ ∀ c ∈ cs, ∀ b, c.target = .block b → b.breaches d = [] := by
  induction cs generalizing i with
  | nil => simp [breachesOfBranches]
  | cons c cs ih =>
    obtain ⟨isExpression, target, expression⟩ := c
    simp only [breachesOfBranches, List.append_eq_nil_iff, List.map_eq_nil_iff, ih, List.forall_mem_cons]
    cases target with
    | anchor => simp [breachesOfTarget]
    | block b => simp [breachesOfTarget]

theorem breachesOfAll_eq_nil_iff {i : Nat} {nodes : List Node} :
    breachesOfAll d i nodes = [] ↔ ∀ n ∈ nodes, n.breaches d = [] := by
  induction nodes generalizing i with
  | nil => simp [breachesOfAll]
  | cons n nodes ih =>
    simp only [breachesOfAll, List.append_eq_nil_iff, List.map_eq_nil_iff, ih, List.forall_mem_cons]

/-- The check at a node, whatever the node is built from. -/
theorem breaches_eq (n : Node) :
    n.breaches d = n.ownBreaches ++ attributeBreaches d 0 n.attributeList
      ++ breachesOfBranches d 0 n.conditionList ++ breachesOfAll d 0 n.childList := by
  obtain ⟨kind, tag, text, attributes, slot, conditions, loop, children, extra⟩ := n
  rw [breaches]
  congr 1
  · congr 1
    cases conditions with
    | none => rfl
    | some cs => rfl
  · cases children with
    | none => rfl
    | some nodes => rfl

/-- **Nothing is reported** iff a node keeps its rules, and nothing is reported of its
branches and children. -/
theorem breaches_eq_nil_iff {n : Node} :
    n.breaches d = [] ↔ n.Clean ∧ (∀ a ∈ n.attributeList, a.Clean d) ∧
      (∀ c ∈ n.conditionList, ∀ b, c.target = .block b → b.breaches d = []) ∧
      ∀ c ∈ n.childList, c.breaches d = [] := by
  rw [breaches_eq]
  simp only [List.append_eq_nil_iff, ownBreaches_eq_nil_iff, attributeBreaches_eq_nil_iff,
    breachesOfBranches_eq_nil_iff, breachesOfAll_eq_nil_iff, and_assoc]

theorem violation?_eq_none_iff {n : Node} : n.violation? d = none ↔ n.breaches d = [] := by
  simp [violation?]

end Node

end MiniTemplate.Tree
