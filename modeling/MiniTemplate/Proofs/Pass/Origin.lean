import MiniTemplate.Proofs.Pass.Exchange
import MiniTemplate.Proofs.Pass.Survival

/-!
# Where the nodes of a result come from

`ComesFrom` relates the nodes of a result to those of the markup tree by their places alone: the
children of a node are, in order, the siblings that stay, and the blocks in the conditions of a node
are, in order, the branches that are attached to it. `became_of_comesFrom` carries what the pass makes
of a node along this relation, over any nesting of children and branches, and
`result_keeps_guarantees` reads off it what every node of a result has, though no check asks for it.
-/

namespace MiniTemplate.Pass

open Markup (Node)
open Script (Expr)

variable {f : Frontend} {s : Spelling}

/-! ## Places -/

/-- **A node of a result comes from a markup node**: the root from the root, a child from the
sibling that stays at the same place, and a block from the branch that is attached at the same
place. The first condition of a node is its own and has no block. -/
inductive ComesFrom (root : Node) (t : Tree.Node) : Node → Tree.Node → Prop where
  | root : ComesFrom root t root t
  | child {n c : Node} {u k : Tree.Node} {i j : Nat} (above : ComesFrom root t n u)
      (here : u.childList[i]? = some k) (stays : (stayingPlaces n.childList)[i]? = some j)
      (source : n.childList[j]? = some c) : ComesFrom root t c k
  | block {n b : Node} {u k v : Tree.Node} {i j p q : Nat} {c : Tree.Condition Tree.Node}
      (above : ComesFrom root t n u) (here : u.childList[i]? = some k)
      (stays : (stayingPlaces n.childList)[i]? = some j) (condition : k.conditionList[p + 1]? = some c)
      (target : c.target = .block v) (attached : (branchPlaces n.childList j)[p]? = some q)
      (source : n.childList[q]? = some b) : ComesFrom root t b v

theorem ComesFrom.reaches {root n : Node} {t u : Tree.Node} (comes : ComesFrom root t n u) :
    t.Reaches u := by
  induction comes with
  | root => exact .root
  | child _ here _ _ ih => exact .child ih (List.mem_of_getElem? here)
  | block _ here _ condition target _ _ ih =>
    exact .branch (.child ih (List.mem_of_getElem? here)) (List.mem_of_getElem? condition) target

/-! ## What a node became -/

/-- What a node became among its siblings: the start of a chain has a condition on itself and one for
each branch, and any other node has none. -/
inductive Became (f : Frontend) (s : Spelling) (n : Node) : Tree.Node → Prop where
  | start {source : String} {e : Expr} {t : Tree.Node} {branches : List (Tree.Condition Tree.Node)}
      (role : Role.of n = .start source) (node : Simplified f s n t)
      (blocks : ∀ c ∈ branches, ∃ m g v, Simplified f s m v ∧ c = .branch g v) :
      Became f s n (anchored e t branches)
  | other {t : Tree.Node} (role : ∀ source, Role.of n ≠ .start source) (node : Simplified f s n t) :
      Became f s n t

theorem Became.simplified {n : Node} {u : Tree.Node} (became : Became f s n u) :
    Simplified f s n { u with conditions := none } := by
  cases became with
  | start _ node _ =>
    rw [← node.without_conditions] at node
    exact node
  | other _ node =>
    rw [node.without_conditions]
    exact node

theorem exists_of_mem_branches {siblings : List Node} {places : List Nat}
    {branches : List (Tree.Condition Tree.Node)}
    (folded : places.mapM (conditionAt? f s siblings) = some branches) {p : Nat}
    {c : Tree.Condition Tree.Node} (condition : branches[p]? = some c) :
    ∃ q b g v, places[p]? = some q ∧ siblings[q]? = some b ∧ (∃ source, Role.of b = .branch source) ∧
      Simplified f s b v ∧ c = .branch g v := by
  rw [getElem?_of_mapM folded p, Option.bind_eq_some_iff] at condition
  obtain ⟨q, place, found⟩ := condition
  obtain ⟨b, g, v, here, role, node, same⟩ := conditionAt?_eq_some found
  exact ⟨q, b, g, v, place, here, role, node, same⟩

theorem became_of_foldedNode? {siblings : List Node} {j : Nat} {k : Tree.Node}
    (found : foldedNode? f s siblings j = some k) : ∃ n, siblings[j]? = some n ∧ Became f s n k := by
  obtain ⟨n, t, here, node, found⟩ := foldedNode?_eq_some found
  refine ⟨n, here, ?_⟩
  rcases found with ⟨source, e, branches, role, -, folded, rfl⟩ | ⟨other, rfl⟩
  · refine .start role node fun c member => ?_
    obtain ⟨p, condition⟩ := List.mem_iff_getElem?.1 member
    obtain ⟨-, m, g, v, -, -, -, block, same⟩ := exists_of_mem_branches folded condition
    exact ⟨m, g, v, block, same⟩
  · exact .other other node

/-- A child of a result is what the sibling that stays at its place became. -/
theorem foldedNode?_of_child {n : Node} {u k : Tree.Node} {i : Nat}
    (node : Simplified f s n { u with conditions := none }) (here : u.childList[i]? = some k) :
    ∃ j, (stayingPlaces n.childList)[i]? = some j ∧ foldedNode? f s n.childList j = some k := by
  have folded := getElem?_of_mapM (folded_of_simplifyChildren node.children) i
  rw [show (u.children.getD [])[i]? = some k from here, eq_comm, Option.bind_eq_some_iff] at folded
  exact folded

/-- The block of a condition is what the branch that is attached at its place became. -/
theorem simplified_of_block {siblings : List Node} {j p : Nat} {k v : Tree.Node}
    {c : Tree.Condition Tree.Node} (found : foldedNode? f s siblings j = some k)
    (condition : k.conditionList[p + 1]? = some c) (target : c.target = .block v) :
    ∃ q b, (branchPlaces siblings j)[p]? = some q ∧ siblings[q]? = some b ∧
      (∃ source, Role.of b = .branch source) ∧ Simplified f s b v := by
  obtain ⟨n, t, -, node, found⟩ := foldedNode?_eq_some found
  rcases found with ⟨source, e, branches, -, -, folded, rfl⟩ | ⟨-, rfl⟩
  · obtain ⟨q, b, g, t, place, here, role, block, rfl⟩ := exists_of_mem_branches folded condition
    cases target
    exact ⟨q, b, place, here, role, block⟩
  · rw [Tree.Node.conditionList, node.conditions] at condition
    cases condition

theorem became_of_simplifyRoot {root : Node} {t : Tree.Node}
    (done : (simplifyRoot f s root).result = .ok t) :
    Became f s root t ∧ ∀ c ∈ t.conditionList, c.target = .anchor := by
  unfold simplifyRoot at done
  split at done
  · rename_i source role
    simp only [Trace.bind_ok_iff, Trace.pure_result, Except.ok.injEq, simplifyNode_ok_iff] at done
    obtain ⟨e, -, t, node, rfl⟩ := done
    refine ⟨.start role node (by simp), ?_⟩
    simp [Tree.Node.conditionList, anchored, Tree.Condition.anchor]
  · rename_i other
    have node := simplifyNode_ok_iff.1 done
    refine ⟨.other other node, ?_⟩
    simp [Tree.Node.conditionList, node.conditions]

/-- **Every node of a result is what the node that it comes from became.** -/
theorem became_of_comesFrom {root n : Node} {t u : Tree.Node}
    (done : (simplifyRoot f s root).result = .ok t) (comes : ComesFrom root t n u) :
    Became f s n u := by
  induction comes with
  | root => exact (became_of_simplifyRoot done).1
  | child _ here stays source ih =>
    obtain ⟨j, place, found⟩ := foldedNode?_of_child ih.simplified here
    rw [stays, Option.some.injEq] at place
    subst place
    obtain ⟨c, there, became⟩ := became_of_foldedNode? found
    rw [source, Option.some.injEq] at there
    rwa [there]
  | block _ here stays condition target attached source ih =>
    obtain ⟨j, place, found⟩ := foldedNode?_of_child ih.simplified here
    rw [stays, Option.some.injEq] at place
    subst place
    obtain ⟨q, b, place, there, ⟨_, role⟩, node⟩ := simplified_of_block found condition target
    rw [attached, Option.some.injEq] at place
    subst place
    rw [source, Option.some.injEq] at there
    subst there
    exact .other (by simp [role]) node

/-- The conditions with a block come after the first, and only what became the start of a chain has
conditions. -/
theorem Became.not_block {n : Node} {u v : Tree.Node} {c : Tree.Condition Tree.Node}
    (became : Became f s n u) (condition : u.conditionList[0]? = some c) : c.target ≠ .block v := by
  cases became with
  | start role node blocks =>
    cases condition
    simp [Tree.Condition.anchor]
  | other role node =>
    rw [Tree.Node.conditionList, node.conditions] at condition
    cases condition

/-- **Every node of a result comes from a markup node.** -/
theorem exists_comesFrom {root : Node} {t u : Tree.Node}
    (done : (simplifyRoot f s root).result = .ok t) (reached : t.Reaches u) :
    ∃ n, ComesFrom root t n u := by
  induction reached with
  | root => exact ⟨root, .root⟩
  | child _ member ih =>
    obtain ⟨n, above⟩ := ih
    obtain ⟨i, here⟩ := List.mem_iff_getElem?.1 member
    obtain ⟨j, stays, found⟩ := foldedNode?_of_child (became_of_comesFrom done above).simplified here
    obtain ⟨c, source, -⟩ := became_of_foldedNode? found
    exact ⟨c, .child above here stays source⟩
  | branch _ member target ih =>
    obtain ⟨n, comes⟩ := ih
    -- Only a child that became the start of a chain has blocks: the root has no siblings, and a
    -- block has no conditions.
    cases comes with
    | root =>
      rw [(became_of_simplifyRoot done).2 _ member] at target
      cases target
    | child above here stays source =>
      have became := became_of_comesFrom done (.child above here stays source)
      obtain ⟨p, condition⟩ := List.mem_iff_getElem?.1 member
      cases p with
      | zero => exact (became.not_block condition target).elim
      | succ p =>
        obtain ⟨j, place, found⟩ :=
          foldedNode?_of_child (became_of_comesFrom done above).simplified here
        obtain ⟨q, b, attached, there, -, -⟩ := simplified_of_block found condition target
        exact ⟨b, .block above here place condition target attached there⟩
    | block above here stays condition goal attached source =>
      obtain ⟨j, -, found⟩ := foldedNode?_of_child (became_of_comesFrom done above).simplified here
      obtain ⟨q, b, -, -, -, node⟩ := simplified_of_block found condition goal
      rw [Tree.Node.conditionList, node.conditions] at member
      cases member

/-! ## Guarantees -/

/-- **What every node of a result has**, beside what the contract asks for: lists that are present
are not empty; it has conditions iff the node that it comes from has an `if`, its own first and with
an expression, and the others have blocks without conditions; a text node has its text or an
expression, and only if there was a text; and no expression is left in a text or a value. -/
structure Guaranteed (f : Frontend) (n : Node) (u : Tree.Node) : Prop where
  children : u.children ≠ some []
  guarded : u.conditions ≠ none ↔ n.ifGuard ≠ none
  conditions : ∀ cs, u.conditions = some cs →
    ∃ own rest, cs = own :: rest ∧ own.target = .anchor ∧ own.expression ≠ none
  blocks : ∀ c ∈ u.conditionList, ∀ v, c.target = .block v → v.conditions = none
  content : u.kind = .text → n.text ≠ none → (u.text ≠ none ↔ u.slot = none)
  empty : u.kind = .text → n.text = none → u.text = none ∧ u.slot = none
  text : u.kind = .text → ∀ raw, u.text = some raw → (f.detector raw).hasBinding = false
  values : ∀ a ∈ u.attributeList, a.name ≠ "data-eventconfigs" → ∀ raw, a.value = some raw →
    (f.detector raw).hasBinding = false

theorem unlessEmpty_ne {α : Type} (xs : List α) : unlessEmpty xs ≠ some [] := by
  cases xs with
  | nil => simp [unlessEmpty]
  | cons x xs => simp [unlessEmpty]

/-- A text that stays holds no expression. -/
theorem literal_of_simplifyText {text shown : Option String} {slot : Option Slot}
    (done : (simplifyText f .text text).result = .ok (shown, slot)) {raw : String}
    (stays : shown = some raw) : (f.detector raw).hasBinding = false := by
  cases text with
  | none =>
    cases done
    cases stays
  | some source =>
    simp only [simplifyText, Trace.bind_ok_iff] at done
    obtain ⟨tree, extracted, done⟩ := done
    rcases Frontend.extract_ok_iff.1 extracted with ⟨literal, rfl⟩ | ⟨e, -, -, rfl⟩
    · cases done
      cases stays
      exact literal
    · cases done
      cases stays

/-- A value that stays holds no expression, unless it is that of the handlers of events. -/
theorem Exchanged.literal {a : Markup.Attribute} {b : Tree.Attribute} (exchanged : Exchanged f a b)
    (named : b.name ≠ "data-eventconfigs") {raw : String} (stays : b.value = some raw) :
    (f.detector raw).hasBinding = false := by
  have slotless : b.slot = none := by
    by_contra slot
    rw [exchanged.traded slot] at stays
    cases stays
  have sourceless : ¬ HasSource f a := fun source => exchanged.sourced.2 source slotless
  rw [exchanged.kept slotless] at stays
  rw [exchanged.name] at named
  by_contra bound
  have bound : IsBoundValue f a := ⟨raw, stays, by simpa using bound⟩
  cases fragments : fragments? a with
  | some pair => exact sourceless (.styled fragments bound)
  | none =>
    refine sourceless (.generic ?_ bound)
    unfold fragments? at fragments
    split at fragments
    · cases fragments
    · split at fragments
      · cases fragments
      · rename_i notClass notStyle
        simp [specialNames, notClass, notStyle, named]

theorem values_of_simplifyAttributes {d : Dialect} {as : List Markup.Attribute} {t : Tree.Node}
    (list : (simplifyAttributes f d as).result = .ok t.attributes) :
    ∀ a ∈ t.attributeList, a.name ≠ "data-eventconfigs" → ∀ raw, a.value = some raw →
      (f.detector raw).hasBinding = false := by
  simp only [simplifyAttributes, Trace.bind_ok_iff, Trace.pure_result, Except.ok.injEq] at list
  obtain ⟨bs, list, same⟩ := list
  rw [Tree.Node.attributeList, ← same, unlessEmpty_getD]
  intro b member named raw stays
  obtain ⟨a, -, -, simplified⟩ := exists_of_mem_simplifyAttributeList list b member
  exact (exchanged_of_simplifyAttribute simplified).literal named stays

theorem started_iff {n : Node} : (∃ source, Role.of n = .start source) ↔ n.ifGuard ≠ none := by
  simp only [role_eq_start_iff, Option.ne_none_iff_exists']
  constructor
  · rintro ⟨-, guard, found, -⟩
    exact ⟨guard, found⟩
  · rintro ⟨guard, found⟩
    exact ⟨_, guard, found, rfl⟩

/-- **What a node became has the guarantees.** -/
theorem Became.guaranteed {n : Node} {u : Tree.Node} (became : Became f s n u) :
    Guaranteed f n u := by
  have node := became.simplified
  obtain ⟨placed, -, children⟩ := placed_of_simplifyChildren node.children
  have content : (simplifyText f n.kind n.text).result = .ok (u.text, u.slot) := node.content
  have kind : u.kind = n.kind := node.kind
  refine ⟨?_, ?_, ?_, ?_, ?_, ?_, ?_, values_of_simplifyAttributes node.attributes⟩
  · rw [show u.children = unlessEmpty (assemble placed) from children]
    exact unlessEmpty_ne _
  · rw [← started_iff]
    cases became with
    | start role _ _ => simp [anchored, role]
    | other role node => simp [node.conditions, role]
  · intro cs present
    cases became with
    | start role _ _ =>
      cases present
      exact ⟨_, _, rfl, rfl, by simp [Tree.Condition.anchor]⟩
    | other role node =>
      rw [node.conditions] at present
      cases present
  · intro c member v target
    cases became with
    | start role _ blocks =>
      rcases List.mem_cons.1 member with rfl | member
      · cases target
      · obtain ⟨m, g, w, block, rfl⟩ := blocks c member
        cases target
        exact block.conditions
    | other role node =>
      rw [Tree.Node.conditionList, node.conditions] at member
      cases member
  · intro text present
    rcases simplifyText_ok content with ⟨raw, tree, -, -, -, shown, slot⟩ | ⟨-, shown, slot⟩
    · simp [shown, slot]
    · simp [shown, slot, present]
  · intro text absent
    rcases simplifyText_ok content with ⟨raw, tree, -, same, -, -, -⟩ | ⟨-, shown, slot⟩
    · rw [absent] at same
      cases same
    · exact ⟨shown.trans absent, slot⟩
  · intro text raw stays
    rw [← kind, text] at content
    exact literal_of_simplifyText content stays

/-- **The nodes of a result are those that come from a markup node, and each of them has the
guarantees.** -/
theorem result_keeps_guarantees {root : Node} {t : Tree.Node}
    (done : (simplifyRoot f s root).result = .ok t) :
    (∀ u, t.Reaches u ↔ ∃ n, ComesFrom root t n u) ∧
      ∀ n u, ComesFrom root t n u → Guaranteed f n u := by
  refine ⟨fun u => ⟨exists_comesFrom done, ?_⟩, fun n u comes => ?_⟩
  · rintro ⟨n, comes⟩
    exact comes.reaches
  · exact (became_of_comesFrom done comes).guaranteed

/-- A chain whose branch is a text with an expression, behind a dead node. -/
def guardedText : Node :=
  { Node.element "page" with
    children := some [
      { Node.element "icon" with staticIf := some false },
      { Node.element "view" with ifGuard := some { source := "a" } },
      Node.ofText " ",
      { Node.ofText "\x7b\x7bb\x7d\x7d" with isElse := true }] }

/-- The branch is reached as the block of the only child that stands before the blank. -/
theorem guardedText_keeps_guarantees :
    ∃ t k c v n, (simplifyRoot .standard Mode.wx.spelling guardedText).result = .ok t ∧
      t.childList[0]? = some k ∧ k.conditionList[1]? = some c ∧ c.target = .block v ∧
      guardedText.childList[3]? = some n ∧ ComesFrom guardedText t n v ∧ t.Reaches v ∧
      Guaranteed .standard n v := by
  have run : (simplifyRoot .standard Mode.wx.spelling guardedText).result.toOption.any (fun t =>
      t.childList[0]?.any fun k => k.conditionList[1]?.any fun c => !c.target.isAnchor) = true := by
    decide +kernel
  obtain ⟨t, done, shape⟩ := (Option.any_eq_true _ _).1 run
  obtain ⟨k, here, shape⟩ := (Option.any_eq_true _ _).1 shape
  obtain ⟨c, condition, shape⟩ := (Option.any_eq_true _ _).1 shape
  have done := ok_of_toOption done
  obtain ⟨reached, guaranteed⟩ := result_keeps_guarantees done
  cases target : c.target with
  | anchor => simp [target, Tree.Target.isAnchor] at shape
  | block v =>
    have comes : ComesFrom guardedText t { Node.ofText "\x7b\x7bb\x7d\x7d" with isElse := true } v :=
      .block (i := 0) (j := 1) (p := 0) (q := 3) .root here (by decide +kernel) condition target
        (by decide +kernel) rfl
    exact ⟨t, k, c, v, _, done, here, condition, target, rfl, comes, (reached v).2 ⟨_, comes⟩,
      guaranteed _ v comes⟩

end MiniTemplate.Pass
