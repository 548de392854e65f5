import MiniTemplate.Proofs.Pass.Noninterference
import MiniTemplate.Proofs.Pass.Survival

/-!
# Orphans have no effect

A branch that no chain reaches is an orphan. It stands for itself, as if it had no directive, and
its condition is never looked at. `withoutOrphans` erases the directives of all orphans of a tree
at once. A text that was an orphan is passable afterwards, where it was the end of the search before;
but no chain reached it, so none reaches what comes after it (`reachAfter_erased`), and every branch
stays attached where it was (`attachedTo_erased`).
-/

namespace MiniTemplate.Pass

open Markup (Node)

variable {f : Frontend} {s : Spelling}

/-! ## Trees without orphans -/

/-- **The node at a place is an orphan**: a branch that is attached to no chain. -/
def Orphan (siblings : List Node) (i : Nat) : Prop :=
  siblings[i]?.any isBranch = true ∧ ¬ Attached siblings i

instance (siblings : List Node) (i : Nat) : Decidable (Orphan siblings i) :=
  inferInstanceAs (Decidable (_ ∧ ¬ _))

/-- A node without the directives of a branch. -/
def withoutBranch (n : Node) : Node := { n with elseIfGuard := none, isElse := false }

/-- Siblings without the directives of the orphans among them, where `others` are the siblings with
other children. -/
def erased (siblings others : List Node) : List Node :=
  others.mapIdx fun i n => if Orphan siblings i then withoutBranch n else n

mutual

/-- A node without the directives of the orphans below it. -/
def clearedBelow : Node → Node
  | { kind, tag, text, attributes, attributeMap, children, ifGuard, elseIfGuard, isElse, loop, staticIf,
      extra } =>
    { kind, tag, text, attributes, attributeMap, children := clearedChildren children, ifGuard
      elseIfGuard, isElse, loop, staticIf, extra }

/-- The children of a node, without the directives of the orphans among them and below them. -/
def clearedChildren : Option (List Node) → Option (List Node)
  | none => none
  | some nodes => some (erased nodes (clearedBelowAll nodes))

/-- Several nodes without the directives of the orphans below them. -/
def clearedBelowAll : List Node → List Node
  | [] => []
  | n :: rest => clearedBelow n :: clearedBelowAll rest

end

/-- **A tree without the directives of its orphans**; the root is one unless it starts a chain. -/
def withoutOrphans (root : Node) : Node :=
  if root.ifGuard.isSome then clearedBelow root else withoutBranch (clearedBelow root)

theorem clearedBelowAll_eq_map (nodes : List Node) :
    clearedBelowAll nodes = nodes.map clearedBelow := by
  exact eq_map_of_cons rfl (fun n rest => by rw [clearedBelowAll]) nodes

theorem clearedBelow_eq (n : Node) :
    clearedBelow n =
      { n with children := n.children.map fun nodes => erased nodes (nodes.map clearedBelow) } := by
  obtain ⟨kind, tag, text, attributes, attributeMap, children, ifGuard, elseIfGuard, isElse, loop,
    staticIf, extra⟩ := n
  rw [clearedBelow]
  cases children with
  | none => rfl
  | some nodes => rw [clearedChildren, clearedBelowAll_eq_map, Option.map_some]

theorem childList_clearedBelow (n : Node) :
    (clearedBelow n).childList = erased n.childList (n.childList.map clearedBelow) := by
  rw [clearedBelow_eq, Node.childList, Node.childList]
  cases n.children with
  | none => rfl
  | some nodes => rfl

/-! ## One node -/

theorem exists_role_of_isBranch {n : Node} (branch : isBranch n = true) :
    ∃ source, Role.of n = .branch source := by
  cases role : Role.of n with
  | start source => simp [isBranch, role] at branch
  | branch source => exact ⟨source, rfl⟩
  | none => simp [isBranch, role] at branch

/-- A branch has no `if`, so without its directives it has no role. -/
theorem role_withoutBranch {n : Node} (branch : isBranch n = true) :
    Role.of (withoutBranch n) = .none := by
  obtain ⟨source, role⟩ := exists_role_of_isBranch branch
  have unguarded : n.ifGuard = none := by
    by_contra guarded
    obtain ⟨guard, found⟩ := Option.ne_none_iff_exists.1 guarded
    rw [role_eq_start_iff.2 ⟨guard, found.symm, rfl⟩] at role
    cases role
  simp [Role.of, withoutBranch, unguarded]

theorem simplifyNode_withoutBranch (n : Node) :
    simplifyNode f s (withoutBranch n) = simplifyNode f s n := by
  rw [simplifyNode_eq, simplifyNode_eq]
  rfl

/-- What a node is among its siblings does not depend on its children. -/
theorem kind_of_children (n : Node) (children : Option (List Node)) :
    opensChain { n with children } = opensChain n ∧ isBranch { n with children } = isBranch n ∧
      isPassable { n with children } = isPassable n :=
  ⟨rfl, rfl, rfl⟩

theorem kind_of_withoutBranch {n : Node} (branch : isBranch n = true) :
    opensChain (withoutBranch n) = false ∧ isBranch (withoutBranch n) = false ∧
      isPassable (withoutBranch n) = n.isText := by
  have present := isPlaceholder_of_isBranch branch
  have without : (withoutBranch n).isPlaceholder = false := present
  exact kind_of_none without (role_withoutBranch branch)

/-! ## Attachment -/

section Attachment

variable {siblings : List Node} {others : List Node}

/-- The same nodes, but for their children. -/
def SameButChildren (siblings others : List Node) : Prop :=
  List.Forall₂ (fun n m => ∃ children, m = { n with children }) siblings others

theorem SameButChildren.at (same : SameButChildren siblings others) (i : Nat) :
    (siblings[i]? = none ∧ others[i]? = none) ∨
      ∃ n children, siblings[i]? = some n ∧ others[i]? = some { n with children } := by
  induction same generalizing i with
  | nil => exact Or.inl ⟨rfl, rfl⟩
  | @cons n m siblings others first _ ih =>
    cases i with
    | zero =>
      obtain ⟨children, rfl⟩ := first
      exact Or.inr ⟨n, children, rfl, rfl⟩
    | succ i => simpa using ih i

/-- What a place is after erasing: a start where it was one, a branch where it was one and no
orphan, and passable where it was passable, unless it was an orphan. -/
theorem erased_at (same : SameButChildren siblings others) (i : Nat) :
    (erased siblings others)[i]?.any opensChain = siblings[i]?.any opensChain ∧
    ((erased siblings others)[i]?.any isBranch = true ↔
      siblings[i]?.any isBranch = true ∧ ¬ Orphan siblings i) ∧
    ((erased siblings others)[i]?.all isPassable = true → siblings[i]?.all isPassable = true) ∧
    (¬ Orphan siblings i →
      (erased siblings others)[i]?.all isPassable = siblings[i]?.all isPassable) := by
  rw [erased, List.getElem?_mapIdx]
  rcases same.at i with ⟨gone, also⟩ | ⟨n, children, there, here⟩
  · simp [gone, also]
  obtain ⟨opens, branch, passable⟩ := kind_of_children n children
  rw [there, here, Option.map_some]
  simp only [Option.any_some, Option.all_some]
  by_cases orphan : Orphan siblings i
  · -- An orphan is a branch, so it was passable before.
    have own : isBranch n = true := by simpa [there] using orphan.1
    obtain ⟨source, role⟩ := exists_role_of_isBranch own
    obtain ⟨closed, -, passed⟩ := kind_of_branch (isPlaceholder_of_isBranch own) role
    obtain ⟨closedAfter, branchAfter, -⟩ := kind_of_withoutBranch (branch.trans own)
    simp [closed, passed, closedAfter, branchAfter, orphan]
  · simp [opens, branch, passable, orphan]

/-- **Erasing orphans leaves every branch attached where it was.** An orphan between a branch and
its chain would be attached to the chain too. -/
theorem attachedTo_erased (same : SameButChildren siblings others) (j i : Nat) :
    AttachedTo (erased siblings others) j i ↔ AttachedTo siblings j i := by
  constructor
  · rintro ⟨less, opens, branch, between⟩
    refine ⟨less, ?_, ?_, fun k before after => ?_⟩
    · rw [← (erased_at same j).1]
      exact opens
    · exact ((erased_at same i).2.1.1 branch).1
    · exact (erased_at same k).2.2.1 (between k before after)
  · rintro ⟨less, opens, branch, between⟩
    -- Whatever is passed on the way to the branch is no orphan.
    have free : ∀ k, j < k → k ≤ i → ¬ Orphan siblings k := by
      intro k after before orphan
      refine orphan.2 ⟨j, after, after, opens, orphan.1, fun l earlier later => ?_⟩
      exact between l (by omega) later
    refine ⟨less, ?_, ?_, fun k before after => ?_⟩
    · rw [(erased_at same j).1]
      exact opens
    · exact (erased_at same i).2.1.2 ⟨branch, free i less (Nat.le_refl i)⟩
    · rw [(erased_at same k).2.2.2 (free k after (by omega))]
      exact between k before after

/-- **No orphan is left.** -/
theorem not_orphan_erased (same : SameButChildren siblings others) (i : Nat) :
    ¬ Orphan (erased siblings others) i := by
  rintro ⟨branch, free⟩
  obtain ⟨own, kept⟩ := (erased_at same i).2.1.1 branch
  have attached : Attached siblings i := by
    by_contra unattached
    exact kept ⟨own, unattached⟩
  obtain ⟨j, less, attached⟩ := attached
  exact free ⟨j, less, (attachedTo_erased same j i).2 attached⟩

end Attachment

/-! ## The pass, one sibling at a time -/

/-- The node at a place is an orphan, where `reach` says whether there is the start of a chain
further back. -/
def OrphanFrom (reach : Bool) (siblings : List Node) (i : Nat) : Prop :=
  siblings[i]?.any isBranch = true ∧ ¬ Joins reach siblings i

instance (reach : Bool) (siblings : List Node) (i : Nat) : Decidable (OrphanFrom reach siblings i) :=
  inferInstanceAs (Decidable (_ ∧ ¬ _))

/-- Siblings without the directives of the orphans among them, where `reach` says whether there is
the start of a chain further back. -/
def erasedFrom (reach : Bool) (siblings others : List Node) : List Node :=
  others.mapIdx fun i n => if OrphanFrom reach siblings i then withoutBranch n else n

theorem erased_eq (siblings others : List Node) :
    erased siblings others = erasedFrom false siblings others := by
  refine congrArg (others.mapIdx ·) (funext fun i => funext fun n => ?_)
  exact if_congr (and_congr_right fun _ => not_congr joins_false.symm) rfl rfl

theorem orphanFrom_cons_zero {reach : Bool} {n : Node} {siblings : List Node} :
    OrphanFrom reach (n :: siblings) 0 ↔ isBranch n = true ∧ reach = false := by
  simp only [OrphanFrom, joins_cons_zero, List.getElem?_cons_zero, Option.any_some]
  cases reach with
  | true => simp
  | false => simp

theorem orphanFrom_cons_succ {reach : Bool} {n : Node} {siblings : List Node} {i : Nat} :
    OrphanFrom reach (n :: siblings) (i + 1) ↔ OrphanFrom (reachAfter reach n) siblings i := by
  simp only [OrphanFrom, joins_cons_succ, List.getElem?_cons_succ]

theorem erasedFrom_cons (reach : Bool) (n m : Node) (siblings others : List Node) :
    erasedFrom reach (n :: siblings) (m :: others) =
      (if isBranch n = true ∧ reach = false then withoutBranch m else m) ::
        erasedFrom (reachAfter reach n) siblings others := by
  simp only [erasedFrom, List.mapIdx_cons, orphanFrom_cons_zero, orphanFrom_cons_succ]

/-- **The flag after an orphan is the same without its directives**: it was down before. -/
theorem reachAfter_erased {n : Node} (branch : isBranch n = true) :
    reachAfter false (withoutBranch n) = reachAfter false n := by
  rw [reachAfter_eq, reachAfter_eq, (kind_of_withoutBranch branch).1, Bool.and_false, Bool.and_false,
    Bool.or_false, Bool.or_false]
  obtain ⟨source, role⟩ := exists_role_of_isBranch branch
  exact (kind_of_branch (isPlaceholder_of_isBranch branch) role).1.symm

/-- **An orphan fares as it does without its directives.** -/
theorem place_erased {n : Node} (branch : isBranch n = true) :
    place f s false (withoutBranch n) = place f s false n := by
  have present := isPlaceholder_of_isBranch branch
  have without : (withoutBranch n).isPlaceholder = false := present
  obtain ⟨source, role⟩ := exists_role_of_isBranch branch
  unfold place
  rw [present, without, role_withoutBranch branch, role, simplifyNode_withoutBranch]
  rfl

theorem placeAll_cons (reach : Bool) (n : Node) (rest : List Node) :
    placeAll f s reach (n :: rest) = (do
      let placed ← place f s reach n
      let others ← placeAll f s (reachAfter reach n) rest
      return placed :: others) := by
  rw [placeAll]
  rfl

/-- The siblings with other children that are simplified to the same. -/
def SimplifiedAlike (f : Frontend) (s : Spelling) (siblings others : List Node) : Prop :=
  List.Forall₂ (fun n m => (∃ children, m = { n with children }) ∧
    simplifyNode f s m = simplifyNode f s n) siblings others

/-- **Siblings are placed as they are without the directives of orphans**, one at a time; the flag
stands for those before. -/
theorem placeAll_erasedFrom {reach : Bool} {siblings others : List Node}
    (alike : SimplifiedAlike f s siblings others) :
    placeAll f s reach (erasedFrom reach siblings others) = placeAll f s reach siblings := by
  induction alike generalizing reach with
  | nil => rfl
  | @cons n m siblings others first _ ih =>
    obtain ⟨⟨children, rfl⟩, simplified⟩ := first
    -- Apart from its children, the node is placed as before.
    have placed : place f s reach { n with children } = place f s reach n := by
      unfold place
      rw [simplified]
      rfl
    have after : reachAfter reach { n with children } = reachAfter reach n := rfl
    rw [erasedFrom_cons]
    split
    · rename_i orphan
      obtain ⟨branch, rfl⟩ := orphan
      have other : isBranch { n with children } = true := branch
      rw [placeAll_cons, placeAll_cons, place_erased other, reachAfter_erased other, placed, after, ih]
    · rw [placeAll_cons, placeAll_cons, placed, after, ih]

/-! ## The pass on trees -/

/-- A node is simplified as it is without the directives of the orphans below it. -/
theorem simplifyNode_clearedBelow (n : Node) :
    simplifyNode f s (clearedBelow n) = simplifyNode f s n := by
  induction n using Node.induction_on_children with
  | step n ih =>
    have children : simplifyChildren f s (clearedBelow n).children =
        simplifyChildren f s n.children := by
      rw [clearedBelow_eq]
      cases found : n.children with
      | none => rfl
      | some nodes =>
        have alike : SimplifiedAlike f s nodes (nodes.map clearedBelow) := by
          rw [SimplifiedAlike, List.forall₂_map_right_iff, List.forall₂_same]
          intro c member
          exact ⟨⟨_, clearedBelow_eq c⟩, ih c (by simpa [Node.childList, found] using member)⟩
        simp only [Option.map_some, simplifyChildren, erased_eq, placeAll_erasedFrom alike]
    rw [simplifyNode_eq, simplifyNode_eq, children, clearedBelow_eq]
    rfl

theorem simplifyRoot_withoutOrphans (root : Node) :
    simplifyRoot f s (withoutOrphans root) = simplifyRoot f s root := by
  unfold withoutOrphans
  split
  · rw [simplifyRoot, simplifyRoot, simplifyNode_clearedBelow, clearedBelow_eq]
    rfl
  · rename_i unguarded
    have unguarded : root.ifGuard = none := by simpa using unguarded
    have plain : ∀ n : Node, n.ifGuard = none → simplifyRoot f s n = simplifyNode f s n := by
      intro n none
      unfold simplifyRoot
      split
      · rename_i source role
        obtain ⟨guard, found, -⟩ := role_eq_start_iff.1 role
        rw [none] at found
        cases found
      · rfl
    have cleared : (withoutBranch (clearedBelow root)).ifGuard = none := by
      rw [clearedBelow_eq]
      exact unguarded
    rw [plain _ cleared, plain _ unguarded, simplifyNode_withoutBranch, simplifyNode_clearedBelow]

theorem sameButChildren_clearedBelow (nodes : List Node) :
    SameButChildren nodes (nodes.map clearedBelow) := by
  rw [SameButChildren, List.forall₂_map_right_iff, List.forall₂_same]
  exact fun c _ => ⟨_, clearedBelow_eq c⟩

/-- At every address of a tree there is what was there, with its children cleared. -/
theorem at?_cleared {n m : Node} (address : List Nat)
    (children : n.childList = (clearedBelow m).childList) {c : Node} (found : m.at? address = some c) :
    ∃ d, n.at? address = some d ∧ d.childList = (clearedBelow c).childList := by
  induction address generalizing n m with
  | nil =>
    cases found
    exact ⟨n, rfl, children⟩
  | cons i address ih =>
    rw [Node.at?, Option.bind_eq_some_iff] at found
    obtain ⟨child, here, found⟩ := found
    have cleared : n.childList[i]? = some (if Orphan m.childList i then
        withoutBranch (clearedBelow child) else clearedBelow child) := by
      rw [children, childList_clearedBelow, erased, List.getElem?_mapIdx, List.getElem?_map, here]
      rfl
    have below : (if Orphan m.childList i then withoutBranch (clearedBelow child)
        else clearedBelow child).childList = (clearedBelow child).childList := by
      split
      · rfl
      · rfl
    obtain ⟨d, reached, same⟩ := ih below found
    exact ⟨d, by rw [Node.at?, cleared, Option.bind_some, reached], same⟩

/-- **An orphan is rendered unconditionally**: it stays unless it is known not to be rendered, and
becomes what it is on its own, without conditions. -/
theorem Orphan.unconditional {siblings : List Node} {i : Nat} {n : Node}
    (orphan : Orphan siblings i) (here : siblings[i]? = some n) :
    (Stays siblings i ↔ isDead n = false) ∧ foldedNode? f s siblings i = simplified? f s n := by
  have branch : isBranch n = true := by simpa [here] using orphan.1
  constructor
  · rw [stays_iff]
    constructor
    · rintro ⟨⟨m, there, -, alive⟩, -⟩
      rw [here, Option.some.injEq] at there
      rwa [there]
    · intro alive
      exact ⟨⟨n, here, isPlaceholder_of_isBranch branch, alive⟩, orphan.2⟩
  · obtain ⟨source, role⟩ := exists_role_of_isBranch branch
    cases simplified : simplified? f s n with
    | none => simp [foldedNode?, here, simplified]
    | some t =>
      have alone := (simplified?_eq_some_iff.1 simplified).without_conditions
      simp [foldedNode?, here, simplified, role, alone]

/-- **Orphans have no effect**: with every front end and under all options, a tree and the tree
without the directives of its orphans have the same result or the same error, and ask the same
questions on the way. At every node of the tree, each branch is attached where it was, no orphan is
left, and what was one is rendered unconditionally. -/
theorem orphans_have_no_effect (f : Frontend) (options : Options) (root : Node) :
    simplifyWith f options (withoutOrphans root) = simplifyWith f options root ∧
    (simplifyTraced f options (withoutOrphans root)).calls = (simplifyTraced f options root).calls ∧
    ∀ address n, root.at? address = some n → ∃ m, (withoutOrphans root).at? address = some m ∧
      (∀ j i, AttachedTo m.childList j i ↔ AttachedTo n.childList j i) ∧
      (∀ i, ¬ Orphan m.childList i) ∧
      ∀ i c, n.childList[i]? = some c → Orphan n.childList i →
        (Stays n.childList i ↔ isDead c = false) ∧
        foldedNode? f options.mode.spelling n.childList i = simplified? f options.mode.spelling c := by
  refine ⟨?_, ?_, fun address n found => ?_⟩
  · rw [simplifyWith_eq, simplifyWith_eq, simplifyRoot_withoutOrphans]
  · rw [simplifyTraced_calls, simplifyTraced_calls, simplifyRoot_withoutOrphans]
  · have children : (withoutOrphans root).childList = (clearedBelow root).childList := by
      unfold withoutOrphans
      split
      · rfl
      · rfl
    obtain ⟨m, reached, same⟩ := at?_cleared address children found
    rw [childList_clearedBelow] at same
    refine ⟨m, reached, ?_, ?_, fun i c here orphan => orphan.unconditional here⟩
    · rw [same]
      exact attachedTo_erased (sameButChildren_clearedBelow _)
    · rw [same]
      exact not_orphan_erased (sameButChildren_clearedBelow _)

/-- A text and an element that are orphans, the element with a condition that is no expression, and
then a chain; below the element, an orphan that has no sibling. -/
def strayBranches : Node :=
  { Node.element "page" with
    isElse := true
    children := some [
      Node.element "view",
      { Node.ofText "x" with isElse := true },
      { Node.element "text" with
        elseIfGuard := some { source := "(" }
        children := some [{ Node.element "icon" with isElse := true }] },
      { Node.element "view" with ifGuard := some { source := "a" } },
      Node.ofText " ",
      { Node.element "view" with isElse := true }] }

/-- The malformed condition is not looked at, and the last branch stays attached. -/
theorem strayBranches_have_no_effect :
    (∀ i, i < 6 → (Orphan strayBranches.childList i ↔ i = 1 ∨ i = 2)) ∧
      simplifyWith .standard { mode := .ali } (withoutOrphans strayBranches) =
        simplifyWith .standard { mode := .ali } strayBranches ∧
      (simplifyTraced .standard { mode := .ali } (withoutOrphans strayBranches)).calls =
        [.detect "x", .parse "a", .detect " "] ∧
      ∃ m, (withoutOrphans strayBranches).at? [] = some m ∧ AttachedTo m.childList 3 5 ∧
        ∀ i, ¬ Orphan m.childList i := by
  obtain ⟨result, calls, attached⟩ :=
    orphans_have_no_effect .standard { mode := .ali } strayBranches
  obtain ⟨m, found, same, none, -⟩ := attached [] strayBranches rfl
  refine ⟨by decide +kernel, result, ?_, m, found, (same 3 5).2 (by decide +kernel), none⟩
  rw [calls]
  decide +kernel

end MiniTemplate.Pass
