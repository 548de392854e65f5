import MiniTemplate.Proofs.Pass.Attachment
import MiniTemplate.Proofs.Pass.Outcome

/-!
# Chains are folded by attachment

What becomes of siblings, said of each place on its own: a node stays unless it is a
placeholder, dead or attached, and the start of a chain takes the branches that are
attached to it as conditions. `PlacedAll.folded` carries this from the end of the
list to its front, where the branches that still reach further back are those that
the next start of a chain takes.
-/

namespace MiniTemplate.Pass

open Markup (Node)
open Script (Expr)

variable {f : Frontend} {s : Spelling}

/-! ## What the places say -/

/-- What a node becomes on its own, if the pass succeeds on it. -/
def simplified? (f : Frontend) (s : Spelling) (n : Node) : Option Tree.Node :=
  (simplifyNode f s n).result.toOption

/-- The condition that a branch stands for: an `elif` has an expression, an `else` has
none, and the block is what the branch becomes on its own. -/
def branchCondition? (f : Frontend) (s : Spelling) (n : Node) : Option (Tree.Condition Tree.Node) :=
  match Role.of n with
  | .branch (some source) => do
    let block ← simplified? f s n
    let e ← f.tree? source
    return { isExpression := true, target := .block block, expression := some e }
  | .branch none => do
    let block ← simplified? f s n
    return { isExpression := false, target := .block block, expression := none }
  | _ => none

/-- The condition that the branch at a place stands for. -/
def conditionAt? (f : Frontend) (s : Spelling) (siblings : List Node) (i : Nat) :
    Option (Tree.Condition Tree.Node) :=
  siblings[i]?.bind (branchCondition? f s)

/-- What the node at a place becomes among its siblings: the start of a chain has a
condition on itself and one for each branch attached to it, any other node has none. -/
def foldedNode? (f : Frontend) (s : Spelling) (siblings : List Node) (j : Nat) : Option Tree.Node := do
  let n ← siblings[j]?
  let t ← simplified? f s n
  match Role.of n with
  | .start source => do
    let e ← f.tree? source
    let branches ← (branchPlaces siblings j).mapM (conditionAt? f s siblings)
    let own := { isExpression := true, target := .anchor, expression := some e }
    return { t with conditions := some (own :: branches) }
  | _ => return { t with conditions := none }

/-! ## From the end of the list to its front -/

theorem simplified?_eq_some_iff {n : Node} {t : Tree.Node} :
    simplified? f s n = some t ↔ Simplified f s n t := by
  rw [← simplifyNode_ok_iff, simplified?]
  cases (simplifyNode f s n).result with
  | ok out => simp [Except.toOption]
  | error e => simp [Except.toOption]

/-- A node that has no conditions is itself without them. -/
theorem Simplified.without_conditions {n : Node} {t : Tree.Node} (node : Simplified f s n t) :
    { t with conditions := none } = t := by
  have none := node.conditions
  cases t
  cases none
  rfl

/-- What the node at a place became, taken apart. -/
theorem foldedNode?_eq_some {siblings : List Node} {i : Nat} {k : Tree.Node}
    (found : foldedNode? f s siblings i = some k) :
    ∃ n t, siblings[i]? = some n ∧ Simplified f s n t ∧
      ((∃ source e branches, Role.of n = .start source ∧ f.parser source = .ok e ∧
          (branchPlaces siblings i).mapM (conditionAt? f s siblings) = some branches ∧
          k = anchored e t branches) ∨
        (∀ source, Role.of n ≠ .start source) ∧ k = t) := by
  simp only [foldedNode?, Option.bind_eq_bind, Option.bind_eq_some_iff, simplified?_eq_some_iff] at found
  obtain ⟨n, here, t, node, found⟩ := found
  refine ⟨n, t, here, node, ?_⟩
  split at found
  · rename_i source role
    simp only [Option.bind_eq_some_iff, Option.pure_def, Option.some.injEq,
      Frontend.tree?_eq_some_iff] at found
    obtain ⟨e, parsed, branches, folded, rfl⟩ := found
    exact Or.inl ⟨source, e, branches, role, parsed, folded, rfl⟩
  · rename_i other
    simp only [Option.pure_def, Option.some.injEq, node.without_conditions] at found
    exact Or.inr ⟨other, found.symm⟩

/-- A condition that stands for a branch has for its block what the branch became. -/
theorem conditionAt?_eq_some {siblings : List Node} {i : Nat} {c : Tree.Condition Tree.Node}
    (found : conditionAt? f s siblings i = some c) :
    ∃ n g t, siblings[i]? = some n ∧ (∃ source, Role.of n = .branch source) ∧ Simplified f s n t ∧
      c = .branch g t := by
  simp only [conditionAt?, Option.bind_eq_some_iff] at found
  obtain ⟨n, here, found⟩ := found
  unfold branchCondition? at found
  split at found
  · rename_i source role
    simp only [Option.bind_eq_bind, Option.bind_eq_some_iff, Option.pure_def, Option.some.injEq,
      simplified?_eq_some_iff] at found
    obtain ⟨t, node, e, -, rfl⟩ := found
    exact ⟨n, some e, t, here, ⟨_, role⟩, node, rfl⟩
  · rename_i role
    simp only [Option.bind_eq_bind, Option.bind_eq_some_iff, Option.pure_def, Option.some.injEq,
      simplified?_eq_some_iff] at found
    obtain ⟨t, node, rfl⟩ := found
    exact ⟨n, none, t, here, ⟨_, role⟩, node, rfl⟩
  · cases found

theorem branchCondition?_eq {n : Node} {source : Option String} {e : Option Expr} {t : Tree.Node}
    (role : Role.of n = .branch source) (parsed : (f.parseOptional source).result = .ok e)
    (node : Simplified f s n t) : branchCondition? f s n = some (.branch e t) := by
  have block := simplified?_eq_some_iff.2 node
  rcases Frontend.parseOptional_ok_iff.1 parsed with ⟨rfl, rfl⟩ | ⟨src, tree, rfl, rfl, parsed⟩
  · simp [branchCondition?, role, block, Tree.Condition.branch]
  · have found := Frontend.tree?_eq_some_iff.2 ‹f.parser src = .ok tree›
    simp [branchCondition?, role, block, found, Tree.Condition.branch]

theorem foldedNode?_cons_succ (n : Node) (siblings : List Node) :
    (fun j => foldedNode? f s (n :: siblings) (j + 1)) = foldedNode? f s siblings := by
  funext j
  have moved : (branchPlaces (n :: siblings) (j + 1)).mapM (conditionAt? f s (n :: siblings)) =
      (branchPlaces siblings j).mapM (conditionAt? f s siblings) := by
    rw [branchPlaces_cons_succ, List.mapM_map]
    rfl
  simp only [foldedNode?, List.getElem?_cons_succ, moved]

/-- A node that does not start a chain becomes what it is on its own. -/
theorem foldedNode?_cons_plain {n : Node} {t : Tree.Node} (siblings : List Node)
    (role : ∀ source, Role.of n ≠ .start source) (node : Simplified f s n t) :
    foldedNode? f s (n :: siblings) 0 = some t := by
  have alone := node.without_conditions
  cases own : Role.of n with
  | start source => exact (role source own).elim
  | branch source => simp [foldedNode?, own, simplified?_eq_some_iff.2 node, alone]
  | none => simp [foldedNode?, own, simplified?_eq_some_iff.2 node, alone]

theorem foldedNode?_cons_start {n : Node} {source : String} {e : Expr} {t : Tree.Node}
    {siblings : List Node} {branches : List (Tree.Condition Tree.Node)}
    (present : n.isPlaceholder = false) (role : Role.of n = .start source)
    (parsed : f.parser source = .ok e) (node : Simplified f s n t)
    (folded : (openPlaces siblings).mapM (conditionAt? f s siblings) = some branches) :
    foldedNode? f s (n :: siblings) 0 = some (anchored e t branches) := by
  have opens : opensChain n = true := by simp [opensChain, present, role]
  have moved : (branchPlaces (n :: siblings) 0).mapM (conditionAt? f s (n :: siblings)) = some branches := by
    rw [branchPlaces_cons_zero opens, List.mapM_map]
    exact folded
  simp [foldedNode?, role, simplified?_eq_some_iff.2 node, Frontend.tree?_eq_some_iff.2 parsed, moved,
    anchored, Tree.Condition.anchor]

/-- The first node stays unless it is dead, in front of those that stay after it. -/
theorem mapM_staying {n : Node} {t : Tree.Node} {siblings : List Node} {places : List Nat}
    {nodes : List Tree.Node} (first : foldedNode? f s (n :: siblings) 0 = some t)
    (later : places.mapM (foldedNode? f s (n :: siblings)) = some nodes) :
    ((if !isDead n then [0] else []) ++ places).mapM (foldedNode? f s (n :: siblings)) =
      some (keepUnless (isDead n) t nodes) := by
  cases isDead n with
  | true => simp [keepUnless, later]
  | false => simp [keepUnless, first, later]

/-- **What is gathered is what the places say**: the branches that reach back past all
siblings, if there is the start of a chain to reach, and the nodes that stay. -/
theorem PlacedAll.folded {reach : Bool} {siblings : List Node} {placed : List Placed}
    (all : PlacedAll f s reach siblings placed) :
    (if reach then openPlaces siblings else []).mapM (conditionAt? f s siblings) = some (gather placed).1 ∧
      (stayingFrom reach siblings).mapM (foldedNode? f s siblings) = some (gather placed).2 := by
  induction all with
  | nil => cases ‹Bool› <;> exact ⟨rfl, rfl⟩
  | @cons reach n p siblings placed first rest ih =>
    obtain ⟨branches, nodes⟩ := ih
    -- The places after the first are those of the shorter list, moved by one.
    have later : ((stayingFrom (reachAfter reach n) siblings).map (· + 1)).mapM
        (foldedNode? f s (n :: siblings)) = some (gather placed).2 := by
      rw [List.mapM_map]
      exact (congrArg (List.mapM · _) (foldedNode?_cons_succ n siblings)).trans nodes
    have moved : ∀ places : List Nat, (places.map (· + 1)).mapM (conditionAt? f s (n :: siblings)) =
        places.mapM (conditionAt? f s siblings) := by
      intro places
      rw [List.mapM_map]
      rfl
    rw [reachAfter_eq] at branches
    rw [stayingFrom_cons, openPlaces_cons]
    cases first with
    | vacant placeholder =>
      obtain ⟨opens, branch, passable⟩ := kind_of_placeholder placeholder
      simp only [opens, passable, Bool.false_or, Bool.true_and] at branches
      refine ⟨?_, by simpa [placeholder, gather] using later⟩
      cases reach with
      | true => simpa [branch, passable, moved, gather] using branches
      | false => simpa [gather] using branches
    | start present role parsed node =>
      obtain ⟨opens, branch, passable⟩ := kind_of_start present role
      simp only [opens, Bool.true_or, if_true] at branches
      refine ⟨by simp [branch, passable, gather], ?_⟩
      have start := foldedNode?_cons_start present role parsed node branches
      simpa [present, branch, gather] using mapM_staying start later
    | @branch source e t present role reached parsed node =>
      obtain ⟨opens, branch, passable⟩ := kind_of_branch present role
      simp only [opens, passable, reached, Bool.false_or, Bool.true_and, if_true] at branches
      have own : conditionAt? f s (n :: siblings) 0 = some (.branch e t) :=
        branchCondition?_eq role parsed node
      refine ⟨?_, by simpa [branch, reached, gather] using later⟩
      simp [reached, branch, passable, moved, own, branches, gather]
    | orphan present role unreached node =>
      obtain ⟨opens, branch, passable⟩ := kind_of_branch present role
      simp only [opens, unreached, Bool.false_or, Bool.and_false] at branches
      have alone := foldedNode?_cons_plain siblings (by simp [role]) node
      refine ⟨by simpa [unreached, gather] using branches, ?_⟩
      simpa [present, unreached, gather] using mapM_staying alone later
    | plain present role node =>
      obtain ⟨opens, branch, passable⟩ := kind_of_none present role
      simp only [opens, Bool.false_or] at branches
      have alone := foldedNode?_cons_plain siblings (by simp [role]) node
      refine ⟨?_, by simpa [present, branch, gather] using mapM_staying alone later⟩
      cases reach with
      | true => cases text : isPassable n <;> simpa [branch, text, moved, gather] using branches
      | false => simpa [gather] using branches

/-- The children of a result are the nodes that stay, each as its place says. -/
theorem folded_of_simplifyChildren {children : Option (List Node)} {kids : Option (List Tree.Node)}
    (done : (simplifyChildren f s children).result = .ok kids) :
    (stayingPlaces (children.getD [])).mapM (foldedNode? f s (children.getD [])) = some (kids.getD []) := by
  obtain ⟨placed, all, rfl⟩ := placed_of_simplifyChildren done
  rw [stayingPlaces_eq, unlessEmpty_getD]
  exact all.folded.2

/-- **Chains are folded by attachment**: a branch is attached to one chain at most, and
the children of a result are, in order, the nodes that stay, each with the conditions
that its place gives it; the list is left out if it is empty. -/
theorem simplifyChildren_folds_chains {children : Option (List Node)} {kids : Option (List Tree.Node)}
    (done : (simplifyChildren f s children).result = .ok kids) :
    (∀ i j k, AttachedTo (children.getD []) j i → AttachedTo (children.getD []) k i → j = k) ∧
    (stayingPlaces (children.getD [])).mapM (foldedNode? f s (children.getD [])) = some (kids.getD []) ∧
    kids ≠ some [] := by
  refine ⟨fun i j k h h' => h.unique h', folded_of_simplifyChildren done, ?_⟩
  obtain ⟨placed, -, rfl⟩ := placed_of_simplifyChildren done
  cases assemble placed with
  | nil => simp [unlessEmpty]
  | cons t nodes => simp [unlessEmpty]

/-- A chain with text and a placeholder in it, an element, an orphan and a dead chain. -/
theorem mixed_siblings_fold :
    ∃ children kids, children = some [{ kind := .element, ifGuard := some { source := "a" } },
        { kind := .text, text := some " " }, { kind := .element, extra := [("_tempIf", .bool true)] },
        { kind := .element, elseIfGuard := some { source := "b" } }, { kind := .text, isElse := true },
        { kind := .element, tag := some "view" }, { kind := .element, isElse := true },
        { kind := .element, ifGuard := some { source := "c" }, staticIf := some false },
        { kind := .element, isElse := true }] ∧
      branchPlaces (children.getD []) 0 = [3, 4] ∧ stayingPlaces (children.getD []) = [0, 1, 5, 6] ∧
      (simplifyChildren .standard Mode.wx.spelling children).result = .ok kids ∧
      (stayingPlaces (children.getD [])).mapM
        (foldedNode? .standard Mode.wx.spelling (children.getD [])) = some (kids.getD []) := by
  refine ⟨_, _, rfl, by decide +kernel, by decide +kernel, rfl, ?_⟩
  exact (simplifyChildren_folds_chains rfl).2.1

end MiniTemplate.Pass
