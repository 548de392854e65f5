import Mathlib.Data.List.Forall2
import Mathlib.Data.List.Nodup
import MiniTemplate.Proofs.Pass.Folding
import MiniTemplate.Proofs.Markup.Apart
import MiniTemplate.Tree.Walk

/-!
# No node is lost, none is met twice

Which nodes of a markup tree survive is said of their addresses, without the pass: every
step of the way down has to be to a child that its siblings keep. `addressesBelow` lists
these addresses in the order in which a walk over the result meets what the nodes became,
a branch right after the start of its chain. `walk_of_simplified` follows the walk through
the result and the list side by side.
-/

namespace MiniTemplate

namespace Markup.Node

/-- The node at an address: the places among siblings that lead to it. -/
def at? : Node → List Nat → Option Node
  | n, [] => some n
  | n, i :: address => n.childList[i]?.bind fun c => c.at? address

end Markup.Node

namespace Pass

open Json (Members)
open Markup (Node)
open Script (Expr)

variable {f : Frontend} {s : Spelling}

/-! ## What survives -/

/-- Siblings keep the node at a place: it is no placeholder, not dead unless it is attached
as a branch, and not attached to a dead start of a chain. -/
def KeptAt (siblings : List Node) (i : Nat) : Prop :=
  ∃ n, siblings[i]? = some n ∧ n.isPlaceholder = false ∧ (isDead n = true → Attached siblings i) ∧
    ∀ j m, AttachedTo siblings j i → siblings[j]? = some m → isDead m = false

/-- **The node at an address survives**: the root does, and a child that its siblings keep
does if its parent does. -/
def Survives : Node → List Nat → Prop
  | _, [] => True
  | n, i :: address => KeptAt n.childList i ∧ ∃ c, n.childList[i]? = some c ∧ Survives c address

theorem AttachedTo.opens {siblings : List Node} {i j : Nat} (h : AttachedTo siblings j i) :
    ∃ m, siblings[j]? = some m ∧ opensChain m = true :=
  (Option.any_eq_true _ _).1 h.2.1

theorem AttachedTo.branch {siblings : List Node} {i j : Nat} (h : AttachedTo siblings j i) :
    ∃ n, siblings[i]? = some n ∧ isBranch n = true :=
  (Option.any_eq_true _ _).1 h.2.2.1

theorem isPlaceholder_of_opensChain {n : Node} (opens : opensChain n = true) :
    n.isPlaceholder = false := by
  simp only [opensChain, Bool.and_eq_true, Bool.not_eq_true'] at opens
  exact opens.1

theorem isPlaceholder_of_isBranch {n : Node} (branch : isBranch n = true) :
    n.isPlaceholder = false := by
  simp only [isBranch, Bool.and_eq_true, Bool.not_eq_true'] at branch
  exact branch.1

/-- The start of a chain is no branch, so it is attached to nothing. -/
theorem not_attached_of_opensChain {siblings : List Node} {i : Nat} {n : Node}
    (here : siblings[i]? = some n) (opens : opensChain n = true) : ¬ Attached siblings i := by
  rintro ⟨j, -, attached⟩
  obtain ⟨m, found, branch⟩ := attached.branch
  rw [here, Option.some.injEq] at found
  subst found
  cases role : Role.of n with
  | start source => simp [isBranch, role] at branch
  | branch source => simp [opensChain, role] at opens
  | none => simp [opensChain, role] at opens

theorem stays_iff {siblings : List Node} {i : Nat} :
    Stays siblings i ↔ (∃ n, siblings[i]? = some n ∧ n.isPlaceholder = false ∧ isDead n = false) ∧
      ¬ Attached siblings i := by
  simp only [Stays, Option.any_eq_true, Bool.and_eq_true, Bool.not_eq_true']

/-- **Siblings keep the nodes that stay and the branches of those.** -/
theorem keptAt_iff {siblings : List Node} {i : Nat} :
    KeptAt siblings i ↔ Stays siblings i ∨ ∃ j, Stays siblings j ∧ AttachedTo siblings j i := by
  constructor
  · rintro ⟨n, here, present, dead, anchors⟩
    by_cases attached : Attached siblings i
    · obtain ⟨j, -, attached⟩ := attached
      obtain ⟨m, found, opens⟩ := attached.opens
      have alive := anchors j m attached found
      refine Or.inr ⟨j, stays_iff.2 ⟨⟨m, found, isPlaceholder_of_opensChain opens, alive⟩, ?_⟩, attached⟩
      exact not_attached_of_opensChain found opens
    · have alive : isDead n = false := Bool.eq_false_iff.2 fun isDead => attached (dead isDead)
      exact Or.inl (stays_iff.2 ⟨⟨n, here, present, alive⟩, attached⟩)
  · rintro (stays | ⟨j, stays, attached⟩)
    · obtain ⟨⟨n, here, present, alive⟩, free⟩ := stays_iff.1 stays
      refine ⟨n, here, present, fun isDead => ?_, fun j m attached _ => ?_⟩
      · rw [alive] at isDead
        cases isDead
      · exact (free ⟨j, attached.1, attached⟩).elim
    · obtain ⟨n, here, branch⟩ := attached.branch
      refine ⟨n, here, isPlaceholder_of_isBranch branch, fun _ => ⟨j, attached.1, attached⟩, ?_⟩
      intro k m other found
      obtain rfl := other.unique attached
      obtain ⟨⟨start, there, -, alive⟩, -⟩ := stays_iff.1 stays
      rw [found, Option.some.injEq] at there
      rwa [there]

/-! ## Addresses in the order of the walk -/

/-- The addresses of the nodes at and below a place, given those below each sibling. -/
def addressesFrom (below : List (List (List Nat))) (i : Nat) : List (List Nat) :=
  ([] :: below.getD i []).map (i :: ·)

/-- The addresses of what the walk meets at a place that stays: the node, its branches with
what is below them, and what is below the node. -/
def addressesAt (siblings : List Node) (below : List (List (List Nat))) (i : Nat) : List (List Nat) :=
  [i] :: ((branchPlaces siblings i).flatMap (addressesFrom below) ++ (below.getD i []).map (i :: ·))

mutual

/-- **The addresses of the surviving nodes below a node**, in the order of the walk. -/
def addressesBelow : Node → List (List Nat)
  | { children, .. } => addressesOfChildren children

/-- The addresses of the surviving nodes among children and below them. -/
def addressesOfChildren : Option (List Node) → List (List Nat)
  | none => []
  | some nodes => (stayingPlaces nodes).flatMap (addressesAt nodes (addressesBelowAll nodes))

/-- The addresses of the surviving nodes below each of several nodes. -/
def addressesBelowAll : List Node → List (List (List Nat))
  | [] => []
  | n :: rest => addressesBelow n :: addressesBelowAll rest

end

theorem addressesBelowAll_eq_map (nodes : List Node) :
    addressesBelowAll nodes = nodes.map addressesBelow := by
  exact eq_map_of_cons rfl (fun n rest => by rw [addressesBelowAll]) nodes

theorem addressesBelow_eq (n : Node) :
    addressesBelow n = (stayingPlaces n.childList).flatMap
      (addressesAt n.childList (n.childList.map addressesBelow)) := by
  obtain ⟨kind, tag, text, attributes, attributeMap, children, ifGuard, elseIfGuard, isElse, loop,
    staticIf, extra⟩ := n
  rw [addressesBelow]
  cases children with
  | none => rfl
  | some nodes => rw [addressesOfChildren, addressesBelowAll_eq_map]; rfl

theorem mem_branchPlaces {siblings : List Node} {i j : Nat} :
    i ∈ branchPlaces siblings j ↔ AttachedTo siblings j i := by
  simp only [branchPlaces, List.mem_filter, List.mem_range, decide_eq_true_eq, and_iff_right_iff_imp]
  intro attached
  obtain ⟨n, here, -⟩ := attached.branch
  exact (List.getElem?_eq_some_iff.1 here).1

theorem mem_stayingPlaces {siblings : List Node} {i : Nat} :
    i ∈ stayingPlaces siblings ↔ Stays siblings i := by
  simp only [stayingPlaces, List.mem_filter, List.mem_range, decide_eq_true_eq, and_iff_right_iff_imp]
  intro stays
  obtain ⟨⟨n, here, -⟩, -⟩ := stays_iff.1 stays
  exact (List.getElem?_eq_some_iff.1 here).1

theorem mem_addressesFrom {below : List (List (List Nat))} {i : Nat} {address : List Nat} :
    address ∈ addressesFrom below i ↔ ∃ rest, address = i :: rest ∧ (rest = [] ∨ rest ∈ below.getD i []) := by
  simp only [addressesFrom, List.mem_map, List.mem_cons]
  constructor
  · rintro ⟨rest, member, rfl⟩
    exact ⟨rest, rfl, member⟩
  · rintro ⟨rest, rfl, member⟩
    exact ⟨rest, member, rfl⟩

/-- What the walk meets at a place: the node there, its branches, and what is below them. -/
theorem mem_addressesAt {siblings : List Node} {below : List (List (List Nat))} {i : Nat}
    {address : List Nat} :
    address ∈ addressesAt siblings below i ↔
      ∃ j, (j = i ∨ AttachedTo siblings i j) ∧ address ∈ addressesFrom below j := by
  simp only [addressesAt, List.mem_cons, List.mem_append, List.mem_flatMap, List.mem_map,
    mem_branchPlaces]
  constructor
  · rintro (rfl | ⟨j, attached, member⟩ | ⟨rest, member, rfl⟩)
    · exact ⟨i, Or.inl rfl, mem_addressesFrom.2 ⟨[], rfl, Or.inl rfl⟩⟩
    · exact ⟨j, Or.inr attached, member⟩
    · exact ⟨i, Or.inl rfl, mem_addressesFrom.2 ⟨rest, rfl, Or.inr member⟩⟩
  · rintro ⟨j, rfl | attached, member⟩
    · obtain ⟨rest, rfl, found⟩ := mem_addressesFrom.1 member
      rcases found with rfl | found
      · exact Or.inl rfl
      · exact Or.inr (Or.inr ⟨rest, found, rfl⟩)
    · exact Or.inr (Or.inl ⟨j, attached, member⟩)

/-- **The listed addresses are those of the nodes that survive.** -/
theorem mem_addressesBelow {n : Node} {address : List Nat} :
    address ∈ addressesBelow n ↔ address ≠ [] ∧ Survives n address := by
  induction n using Node.induction_on_children generalizing address with
  | step n ih =>
    have member : address ∈ addressesBelow n ↔ ∃ j, KeptAt n.childList j ∧
        address ∈ addressesFrom (n.childList.map addressesBelow) j := by
      simp only [addressesBelow_eq, List.mem_flatMap, mem_stayingPlaces, mem_addressesAt, keptAt_iff]
      constructor
      · rintro ⟨i, stays, j, rfl | attached, found⟩
        · exact ⟨j, Or.inl stays, found⟩
        · exact ⟨j, Or.inr ⟨i, stays, attached⟩, found⟩
      · rintro ⟨j, stays | ⟨i, stays, attached⟩, found⟩
        · exact ⟨j, stays, j, Or.inl rfl, found⟩
        · exact ⟨i, stays, j, Or.inr attached, found⟩
    rw [member]
    constructor
    · rintro ⟨j, kept, found⟩
      obtain ⟨rest, rfl, below⟩ := mem_addressesFrom.1 found
      have ⟨c, here, _⟩ := kept
      refine ⟨by simp, kept, c, here, ?_⟩
      rcases below with rfl | below
      · exact trivial
      · rw [List.getD_eq_getElem?_getD, List.getElem?_map, here] at below
        exact ((ih c (List.mem_of_getElem? here)).1 below).2
    · rintro ⟨proper, survives⟩
      cases address with
      | nil => exact (proper rfl).elim
      | cons j rest =>
        obtain ⟨kept, c, here, survives⟩ := survives
        refine ⟨j, kept, mem_addressesFrom.2 ⟨rest, rfl, ?_⟩⟩
        rw [List.getD_eq_getElem?_getD, List.getElem?_map, here]
        by_cases done : rest = []
        · exact Or.inl done
        · exact Or.inr ((ih c (List.mem_of_getElem? here)).2 ⟨done, survives⟩)

theorem nodup_addressesFrom {below : List (List (List Nat))} {i : Nat}
    (proper : [] ∉ below.getD i []) (distinct : (below.getD i []).Nodup) :
    (addressesFrom below i).Nodup := by
  refine List.Nodup.map (fun a b same => ?_) (List.nodup_cons.2 ⟨proper, distinct⟩)
  exact (List.cons.inj same).2

/-- What starts at different places has different addresses. -/
theorem disjoint_addressesFrom {below : List (List (List Nat))} {i j : Nat} (different : i ≠ j) :
    List.Disjoint (addressesFrom below i) (addressesFrom below j) := by
  intro address first second
  obtain ⟨rest, rfl, -⟩ := mem_addressesFrom.1 first
  obtain ⟨other, same, -⟩ := mem_addressesFrom.1 second
  exact different (List.cons.inj same).1

theorem nodup_addressesAt {siblings : List Node} {below : List (List (List Nat))} {i : Nat}
    (proper : ∀ j, [] ∉ below.getD j []) (distinct : ∀ j, (below.getD j []).Nodup) :
    (addressesAt siblings below i).Nodup := by
  have branches : ((branchPlaces siblings i).flatMap (addressesFrom below)).Nodup := by
    refine List.nodup_flatMap.2 ⟨fun j _ => nodup_addressesFrom (proper j) (distinct j), ?_⟩
    exact (List.nodup_range.filter _).imp fun different => disjoint_addressesFrom different
  -- A branch comes after its start, so it is at another place.
  have apart : ∀ rest, i :: rest ∉ (branchPlaces siblings i).flatMap (addressesFrom below) := by
    intro rest member
    obtain ⟨j, branch, member⟩ := List.mem_flatMap.1 member
    obtain ⟨other, same, -⟩ := mem_addressesFrom.1 member
    have later := (mem_branchPlaces.1 branch).1
    have equal := (List.cons.inj same).1
    omega
  refine List.nodup_cons.2 ⟨?_, List.nodup_append.2 ⟨branches, ?_, ?_⟩⟩
  · intro member
    rcases List.mem_append.1 member with member | member
    · exact apart [] member
    · obtain ⟨rest, member, same⟩ := List.mem_map.1 member
      rw [(List.cons.inj same).2] at member
      exact proper i member
  · exact (distinct i).map fun a b same => (List.cons.inj same).2
  · rintro address member other found rfl
    obtain ⟨rest, -, rfl⟩ := List.mem_map.1 found
    exact apart rest member

/-- **No address is listed twice.** -/
theorem nodup_addressesBelow (n : Node) : (addressesBelow n).Nodup := by
  induction n using Node.induction_on_children with
  | step n ih =>
    have proper : ∀ j, [] ∉ (n.childList.map addressesBelow).getD j [] := by
      intro j member
      rw [List.getD_eq_getElem?_getD, List.getElem?_map] at member
      cases here : n.childList[j]? with
      | none => simp [here] at member
      | some c =>
        rw [here] at member
        exact (mem_addressesBelow.1 member).1 rfl
    have distinct : ∀ j, ((n.childList.map addressesBelow).getD j []).Nodup := by
      intro j
      rw [List.getD_eq_getElem?_getD, List.getElem?_map]
      cases here : n.childList[j]? with
      | none => exact List.nodup_nil
      | some c => exact ih c (List.mem_of_getElem? here)
    rw [addressesBelow_eq]
    refine List.nodup_flatMap.2 ⟨fun i _ => nodup_addressesAt proper distinct, ?_⟩
    refine List.Pairwise.imp_of_mem (fun {i j} first second different => ?_)
      (List.nodup_range.filter (fun i => decide (Stays n.childList i)))
    have first := stays_of_mem first
    have second := stays_of_mem second
    intro address member found
    obtain ⟨k, place, member⟩ := mem_addressesAt.1 member
    obtain ⟨l, other, found⟩ := mem_addressesAt.1 found
    have same : k = l := by
      by_contra apart
      exact disjoint_addressesFrom apart member found
    subst same
    rcases place with rfl | place
    · rcases other with rfl | other
      · exact different rfl
      · exact first.2 ⟨j, other.1, other⟩
    · rcases other with rfl | other
      · exact second.2 ⟨i, place.1, place⟩
      · exact different (place.unique other)

/-! ## The walk -/

/-- A node of a result stands for the markup node at an address: it is what that becomes,
its conditions aside. -/
def StandsFor (f : Frontend) (s : Spelling) (root : Node) (address : List Nat) (u : Tree.Node) : Prop :=
  ∃ n, root.at? address = some n ∧ Simplified f s n { u with conditions := none }

/-- What a node becomes stands for it, with whatever conditions. -/
theorem Simplified.standsFor {root n : Node} {address : List Nat} {t : Tree.Node}
    (node : Simplified f s n t) (found : root.at? address = some n)
    (conditions : Option (List (Tree.Condition Tree.Node))) :
    StandsFor f s root address { t with conditions } := by
  refine ⟨n, found, ?_⟩
  show Simplified f s n { t with conditions := none }
  rw [node.without_conditions]
  exact node

theorem walkBranches_eq (conditions : List (Tree.Condition Tree.Node)) :
    Tree.Node.walkBranches conditions = conditions.flatMap fun c => Tree.Node.walkTarget c.target := by
  refine eq_flatMap_of_cons rfl (fun c rest => ?_) conditions
  obtain ⟨isExpression, target, expression⟩ := c
  rw [Tree.Node.walkBranches]

theorem walkAll_eq (nodes : List Tree.Node) :
    Tree.Node.walkAll nodes = nodes.flatMap Tree.Node.walk := by
  exact eq_flatMap_of_cons rfl (fun n rest => by rw [Tree.Node.walkAll]) nodes

/-- The walk at a node, whatever the node is built from. -/
theorem walk_eq (t : Tree.Node) :
    t.walk = t :: ((t.conditionList.flatMap fun c => Tree.Node.walkTarget c.target)
      ++ t.childList.flatMap Tree.Node.walk) := by
  obtain ⟨kind, tag, text, attributes, slot, conditions, loop, children, extra⟩ := t
  have branches : Tree.Node.walkConditions conditions =
      (conditions.getD []).flatMap fun c => Tree.Node.walkTarget c.target := by
    cases conditions with
    | none => rfl
    | some list => exact walkBranches_eq list
  have below : Tree.Node.walkChildren children = (children.getD []).flatMap Tree.Node.walk := by
    cases children with
    | none => rfl
    | some nodes => exact walkAll_eq nodes
  rw [Tree.Node.walk, branches, below]
  rfl

section Siblings

variable {root : Node}

/-- What stands for an address below a child stands for the longer address below its parent. -/
theorem StandsFor.cons {c : Node} {i : Nat} {address : List Nat} {u : Tree.Node}
    (here : root.childList[i]? = some c) (stands : StandsFor f s c address u) :
    StandsFor f s root (i :: address) u := by
  obtain ⟨n, found, node⟩ := stands
  exact ⟨n, by simp [Node.at?, here, found], node⟩

theorem forall₂_cons_address {c : Node} {i : Nat} {addresses : List (List Nat)} {us : List Tree.Node}
    (here : root.childList[i]? = some c) (all : List.Forall₂ (StandsFor f s c) addresses us) :
    List.Forall₂ (StandsFor f s root) (addresses.map (i :: ·)) us := by
  rw [List.forall₂_map_left_iff]
  exact all.imp fun _ _ stands => stands.cons here

/-- A node without conditions is met first, and then what is below it. -/
theorem walk_alone {n : Node} {t : Tree.Node} (node : Simplified f s n t)
    (below : List.Forall₂ (StandsFor f s n) (addressesBelow n) (t.childList.flatMap Tree.Node.walk)) :
    List.Forall₂ (StandsFor f s n) ([] :: addressesBelow n) t.walk := by
  have alone : t.conditionList = [] := by rw [Tree.Node.conditionList, node.conditions]; rfl
  have own : StandsFor f s n [] t := node.standsFor rfl t.conditions
  rw [walk_eq, alone]
  exact .cons own below

/-- The branches of a chain are met in order, each with what is below it. -/
theorem walk_branches {places : List Nat} {branches : List (Tree.Condition Tree.Node)}
    (below : ∀ c ∈ root.childList, ∀ t, Simplified f s c t →
      List.Forall₂ (StandsFor f s c) (addressesBelow c) (t.childList.flatMap Tree.Node.walk))
    (found : places.mapM (conditionAt? f s root.childList) = some branches) :
    List.Forall₂ (StandsFor f s root)
      (places.flatMap (addressesFrom (root.childList.map addressesBelow)))
      (branches.flatMap fun c => Tree.Node.walkTarget c.target) := by
  refine forall₂_flatMap_of_mapM (fun j c hc => ?_) found
  obtain ⟨n, g, t, here, -, node, rfl⟩ := conditionAt?_eq_some hc
  have own := walk_alone node (below n (List.mem_of_getElem? here) t node)
  rw [addressesFrom, List.getD_eq_getElem?_getD, List.getElem?_map, here]
  exact forall₂_cons_address here own

/-- What a place among siblings becomes is met with its branches and what is below it. -/
theorem walk_foldedNode? {i : Nat} {k : Tree.Node}
    (below : ∀ c ∈ root.childList, ∀ t, Simplified f s c t →
      List.Forall₂ (StandsFor f s c) (addressesBelow c) (t.childList.flatMap Tree.Node.walk))
    (found : foldedNode? f s root.childList i = some k) :
    List.Forall₂ (StandsFor f s root)
      (addressesAt root.childList (root.childList.map addressesBelow) i) k.walk := by
  obtain ⟨n, t, here, node, found⟩ := foldedNode?_eq_some found
  have children := forall₂_cons_address here (below n (List.mem_of_getElem? here) t node)
  have first : ∀ conditions, StandsFor f s root [i] { t with conditions } :=
    node.standsFor (by simp [Node.at?, here])
  rw [addressesAt, List.getD_eq_getElem?_getD, List.getElem?_map, here, walk_eq]
  rcases found with ⟨source, e, branches, role, parsed, folded, rfl⟩ | ⟨other, rfl⟩
  · exact .cons (first _) (List.rel_append (walk_branches below folded) children)
  · -- Nothing is attached to a node that does not start a chain.
    have free : branchPlaces root.childList i = [] := by
      refine List.eq_nil_iff_forall_not_mem.2 fun j member => ?_
      obtain ⟨m, there, opens⟩ := (mem_branchPlaces.1 member).opens
      rw [here, Option.some.injEq] at there
      subst there
      cases role : Role.of n with
      | start source => exact other source role
      | branch source => simp [opensChain, role] at opens
      | none => simp [opensChain, role] at opens
    have alone : k.conditionList = [] := by rw [Tree.Node.conditionList, node.conditions]; rfl
    have own := first k.conditions
    rw [free, alone]
    exact .cons own children

end Siblings

/-- **The walk below a simplified node meets what survives**, in the order of the addresses. -/
theorem walk_of_simplified {n : Node} {t : Tree.Node} (node : Simplified f s n t) :
    List.Forall₂ (StandsFor f s n) (addressesBelow n) (t.childList.flatMap Tree.Node.walk) := by
  induction n using Node.induction_on_children generalizing t with
  | step n ih =>
    rw [addressesBelow_eq]
    refine forall₂_flatMap_of_mapM (fun i k found => ?_) (folded_of_simplifyChildren node.children)
    exact walk_foldedNode? (fun c member t node => ih c member node) found

theorem walk_of_simplifyRoot {root : Node} {t : Tree.Node}
    (done : (simplifyRoot f s root).result = .ok t) :
    List.Forall₂ (StandsFor f s root) ([] :: addressesBelow root) t.walk := by
  unfold simplifyRoot at done
  split at done
  · simp only [Trace.bind_ok_iff, Trace.pure_result, Except.ok.injEq, simplifyNode_ok_iff] at done
    obtain ⟨e, -, t, node, rfl⟩ := done
    have own : StandsFor f s root [] (anchored e t []) := node.standsFor rfl _
    have below := walk_of_simplified node
    rw [walk_eq]
    exact .cons own below
  · have node := simplifyNode_ok_iff.1 done
    exact walk_alone node (walk_of_simplified node)

/-! ## Marks -/

/-- Every node of a tree carries a mark of its own: the value of an extra member. -/
def Marked (root : Node) (key : String) : Prop :=
  (∀ address n, root.at? address = some n → (n.extra.get? key).isSome = true) ∧
    ∀ first second n m, root.at? first = some n → root.at? second = some m →
      n.extra.get? key = m.extra.get? key → first = second

/-- The pass leaves alone the members that it does not drop. -/
theorem get?_simplifyExtra {extra : Members} {key : String} (kept : key ∉ Tree.bookkeepingFields)
    (other : key ≠ Node.placeholderMark) :
    Members.get? (simplifyExtra extra) key = Members.get? extra key := by
  induction extra with
  | nil => rfl
  | cons m extra ih =>
    obtain ⟨name, v⟩ := m
    simp only [Members.get?, simplifyExtra, List.filter_cons, List.lookup_cons] at ih ⊢
    by_cases same : key = name
    · subst same
      have stays : (!(Tree.bookkeepingFields.contains key || key == Node.placeholderMark)) = true := by
        simp [kept, other]
      rw [if_pos stays, List.lookup_cons, beq_self_eq_true]
    · have differs : (key == name) = false := by simpa using same
      rw [differs]
      split
      · rw [List.lookup_cons, differs]
        exact ih
      · exact ih

theorem StandsFor.get? {root n : Node} {address : List Nat} {u : Tree.Node} {key : String}
    (stands : StandsFor f s root address u) (found : root.at? address = some n)
    (kept : key ∉ Tree.bookkeepingFields) (other : key ≠ Node.placeholderMark) :
    Members.get? u.extra key = Members.get? n.extra key := by
  obtain ⟨m, there, node⟩ := stands
  rw [found, Option.some.injEq] at there
  subst there
  have extra : u.extra = simplifyExtra n.extra := node.extra
  rw [extra, get?_simplifyExtra kept other]

/-- The mark that a walk meets at a place, if it meets one there. -/
def markAt? (key : String) (us : List Tree.Node) (i : Nat) : Option Json :=
  us[i]?.bind fun u => Members.get? u.extra key

section Marks

variable {root : Node} {key : String} {addresses : List (List Nat)} {us : List Tree.Node}

/-- A mark that is met is that of the node which the address at the same place leads to. -/
theorem address_of_markAt? (all : List.Forall₂ (StandsFor f s root) addresses us)
    (kept : key ∉ Tree.bookkeepingFields) (other : key ≠ Node.placeholderMark) {i : Nat} {mark : Json}
    (met : markAt? key us i = some mark) :
    ∃ address n, addresses[i]? = some address ∧ root.at? address = some n ∧
      Members.get? n.extra key = some mark := by
  obtain ⟨u, here, met⟩ := Option.bind_eq_some_iff.1 met
  obtain ⟨inside, rfl⟩ := List.getElem?_eq_some_iff.1 here
  have bound : i < addresses.length := by rw [all.length_eq]; exact inside
  have stands := all.get bound inside
  obtain ⟨n, found, node⟩ := stands
  refine ⟨_, n, List.getElem?_eq_getElem bound, found, ?_⟩
  rw [← met]
  exact (StandsFor.get? ⟨n, found, node⟩ found kept other).symm

/-- **The mark of an address that is listed is met once.** -/
theorem markAt?_unique (all : List.Forall₂ (StandsFor f s root) addresses us)
    (distinct : addresses.Nodup) (kept : key ∉ Tree.bookkeepingFields)
    (other : key ≠ Node.placeholderMark) (marked : Marked root key) {address : List Nat} {n : Node}
    {mark : Json} (listed : address ∈ addresses) (found : root.at? address = some n)
    (own : Members.get? n.extra key = some mark) : ∃! i, markAt? key us i = some mark := by
  obtain ⟨i, bound, rfl⟩ := List.mem_iff_getElem.1 listed
  have inside : i < us.length := by rw [← all.length_eq]; exact bound
  have met : markAt? key us i = some mark := by
    rw [markAt?, List.getElem?_eq_getElem inside, Option.bind_some, ← own]
    exact StandsFor.get? (all.get bound inside) found kept other
  refine ⟨i, met, fun j again => ?_⟩
  obtain ⟨address, m, there, found', own'⟩ := address_of_markAt? all kept other again
  have same : address = addresses[i] := marked.2 _ _ m n found' found (own'.trans own.symm)
  obtain ⟨bound', rfl⟩ := List.getElem?_eq_some_iff.1 there
  exact (distinct.getElem_inj_iff).1 same

end Marks

/-- **No node is lost and none is met twice**: a walk over the result meets one node for each
address that survives, in some order, and no other. So where every markup node carries a mark
of its own that the pass does not drop, the mark of a node that survives is met at one place,
and a mark that is met at a place is that of a node that survives. -/
theorem walk_meets_survivors {root : Node} {t : Tree.Node}
    (done : (simplifyRoot f s root).result = .ok t) :
    (∃ addresses : List (List Nat), addresses.Nodup ∧
      (∀ address, address ∈ addresses ↔ Survives root address) ∧
      List.Forall₂ (StandsFor f s root) addresses t.walk) ∧
    ∀ key, key ∉ Tree.bookkeepingFields → key ≠ Node.placeholderMark → Marked root key →
      (∀ address n mark, Survives root address → root.at? address = some n →
        Members.get? n.extra key = some mark → ∃! i, markAt? key t.walk i = some mark) ∧
      ∀ i mark, markAt? key t.walk i = some mark → ∃ address n, Survives root address ∧
        root.at? address = some n ∧ Members.get? n.extra key = some mark := by
  have walk := walk_of_simplifyRoot done
  have distinct : ([] :: addressesBelow root).Nodup :=
    List.nodup_cons.2 ⟨fun member => (mem_addressesBelow.1 member).1 rfl, nodup_addressesBelow root⟩
  have listed : ∀ address, address ∈ [] :: addressesBelow root ↔ Survives root address := by
    intro address
    rw [List.mem_cons, mem_addressesBelow]
    by_cases start : address = []
    · subst start
      simp [Survives]
    · simp [start]
  refine ⟨⟨_, distinct, listed, walk⟩, fun key kept other marked => ⟨?_, ?_⟩⟩
  · intro address n mark survives found own
    exact markAt?_unique walk distinct kept other marked ((listed address).2 survives) found own
  · intro i mark met
    obtain ⟨address, n, there, found, own⟩ := address_of_markAt? walk kept other met
    exact ⟨address, n, (listed address).1 (List.mem_of_getElem? there), found, own⟩

/-- A chain whose branch is dead, and a dead chain with a branch, every node with a mark. -/
def twoChains : Node :=
  { kind := .element, extra := [("id", .str "root")], children := some [
      { kind := .element, ifGuard := some { source := "a" }, extra := [("id", .str "start")],
        children := some [{ kind := .text, text := some "x", extra := [("id", .str "text")] }] },
      { kind := .element, isElse := true, staticIf := some false, extra := [("id", .str "branch")] },
      { kind := .element, ifGuard := some { source := "b" }, staticIf := some false,
        extra := [("id", .str "dead")] },
      { kind := .element, isElse := true, extra := [("id", .str "gone")] }] }

/-- The addresses in the two chains, with the marks there. -/
def twoChainsMarks : List (List Nat × String) :=
  [([], "root"), ([0], "start"), ([0, 0], "text"), ([1], "branch"), ([2], "dead"), ([3], "gone")]

theorem twoChains_marked : Marked twoChains "id" := by
  have each : ∀ address n, twoChains.at? address = some n →
      ∃ mark, (address, mark) ∈ twoChainsMarks ∧ Members.get? n.extra "id" = some (.str mark) := by
    intro address n found
    match address with
    | [] => cases found; exact ⟨"root", by decide, rfl⟩
    | [0] => cases found; exact ⟨"start", by decide, rfl⟩
    | [0, 0] => cases found; exact ⟨"text", by decide, rfl⟩
    | [1] => cases found; exact ⟨"branch", by decide, rfl⟩
    | [2] => cases found; exact ⟨"dead", by decide, rfl⟩
    | [3] => cases found; exact ⟨"gone", by decide, rfl⟩
    | 0 :: 0 :: _ :: _ | 0 :: (_ + 1) :: _ | 1 :: _ :: _ | 2 :: _ :: _ | 3 :: _ :: _ | (_ + 4) :: _ =>
      cases found
  have injective : ∀ first ∈ twoChainsMarks, ∀ second ∈ twoChainsMarks,
      first.2 = second.2 → first.1 = second.1 := by decide
  refine ⟨fun address n found => ?_, fun first second n m found found' same => ?_⟩
  · obtain ⟨mark, -, own⟩ := each address n found
    rw [own]
    rfl
  · obtain ⟨mark, member, own⟩ := each first n found
    obtain ⟨mark', member', own'⟩ := each second m found'
    rw [own, own'] at same
    cases same
    exact injective _ member _ member' rfl

/-- The dead branch of a live chain is met once, the live branch of a dead chain never. -/
theorem twoChains_walk_meets_survivors :
    ∃ t, (simplifyRoot .standard Mode.wx.spelling twoChains).result = .ok t ∧
      Marked twoChains "id" ∧ Survives twoChains [1] ∧
      (∃! i, markAt? "id" t.walk i = some (.str "branch")) ∧
      (t.walk.map fun u => Members.get? u.extra "id") =
        [some (.str "root"), some (.str "start"), some (.str "branch"), some (.str "text")] := by
  have survives : Survives twoChains [1] :=
    ⟨⟨_, rfl, rfl, fun _ => by decide +kernel, fun j m attached found => by
      have first : j = 0 := attached.unique (by decide +kernel : AttachedTo twoChains.childList 0 1)
      subst first
      cases found
      rfl⟩, _, rfl, trivial⟩
  have meets : ∀ {t}, (simplifyRoot .standard Mode.wx.spelling twoChains).result = .ok t →
      ∃! i, markAt? "id" t.walk i = some (.str "branch") := by
    intro t done
    have marks := (walk_meets_survivors done).2 "id" (by decide) (by decide) twoChains_marked
    exact marks.1 [1] _ _ survives rfl rfl
  exact ⟨_, rfl, twoChains_marked, survives, meets rfl, rfl⟩

end Pass

end MiniTemplate
