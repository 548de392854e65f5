import Mathlib.Data.List.Forall2
import MiniTemplate.Proofs.Pass.Trace

/-!
# What the pass makes of a tree

`Simplified` relates a markup node to what it becomes, part by part, and `PlacedAs`
a child to what became of it among its siblings. `simplifyNode_ok_iff` and
`placed_of_placeAll` say that the pass succeeds with nothing else, so that later
proofs take these relations apart and never the pass itself.
-/

namespace MiniTemplate.Pass

open Markup (Node)
open Script (Expr)

variable {f : Frontend} {s : Spelling}

/-! ## Attributes -/

/-- **Attributes are simplified one by one**: those that are no directives, in order. -/
theorem simplifyAttributeList_ok_iff {d : Dialect} {as : List Markup.Attribute}
    {bs : List Tree.Attribute} :
    (simplifyAttributeList f d as).result = .ok bs ↔
      List.Forall₂ (fun a b => (simplifyAttribute f a).result = .ok b)
        (as.filter fun a => !d.isDirective a.name) bs := by
  induction as generalizing bs with
  | nil => simp [simplifyAttributeList, eq_comm]
  | cons a as ih =>
    rw [simplifyAttributeList]
    cases directive : d.isDirective a.name with
    | true => simpa [directive] using ih
    | false =>
      simp only [Bool.false_eq_true, if_false, Trace.bind_ok_iff, Trace.pure_result, Except.ok.injEq,
        List.filter_cons, directive, Bool.not_false, if_true, List.forall₂_cons_left_iff]
      constructor
      · rintro ⟨b, first, rest, later, rfl⟩
        exact ⟨b, rest, first, ih.1 later, rfl⟩
      · rintro ⟨b, rest, first, later, rfl⟩
        exact ⟨b, first, rest, ih.2 later, rfl⟩

/-- What a simplified attribute comes from. -/
theorem exists_of_mem_simplifyAttributeList {d : Dialect} {as : List Markup.Attribute}
    {bs : List Tree.Attribute} (done : (simplifyAttributeList f d as).result = .ok bs) :
    ∀ b ∈ bs, ∃ a ∈ as, d.isDirective a.name = false ∧ (simplifyAttribute f a).result = .ok b := by
  have each := simplifyAttributeList_ok_iff.1 done
  intro b member
  obtain ⟨i, inside, rfl⟩ := List.mem_iff_getElem.1 member
  have bound : i < (as.filter fun a => !d.isDirective a.name).length := by
    rw [each.length_eq]
    exact inside
  obtain ⟨found, authored⟩ := List.mem_filter.1 (List.get_mem _ ⟨i, bound⟩)
  exact ⟨_, found, by simpa using authored, each.get bound inside⟩

/-! ## Nodes -/

/-- What a node becomes, without regard to its part in a chain. -/
structure Simplified (f : Frontend) (s : Spelling) (n : Node) (t : Tree.Node) : Prop where
  kind : t.kind = n.kind
  tag : t.tag = n.tag.map simplifyTag
  content : (simplifyText f n.kind n.text).result = .ok (t.text, t.slot)
  attributes : (simplifyAttributes f s n.attributeList).result = .ok t.attributes
  loop : (simplifyLoop? f n.loop).result = .ok t.loop
  children : (simplifyChildren f s n.children).result = .ok t.children
  conditions : t.conditions = none
  extra : t.extra = simplifyExtra n.extra

/-- The steps of the pass at a node, whatever the node is built from. -/
theorem simplifyNode_eq (f : Frontend) (s : Spelling) (n : Node) :
    simplifyNode f s n = (do
      let loop ← simplifyLoop? f n.loop
      let attributes ← simplifyAttributes f s n.attributeList
      let content ← simplifyText f n.kind n.text
      let children ← simplifyChildren f s n.children
      return {
        kind := n.kind
        tag := n.tag.map simplifyTag
        text := content.1
        attributes
        slot := content.2
        loop
        children
        extra := simplifyExtra n.extra }) := by
  obtain ⟨⟩ := n
  rw [simplifyNode]
  rfl

theorem simplifyNode_ok_iff {n : Node} {t : Tree.Node} :
    (simplifyNode f s n).result = .ok t ↔ Simplified f s n t := by
  rw [simplifyNode_eq]
  simp only [Trace.bind_ok_iff, Trace.pure_result, Except.ok.injEq]
  constructor
  · rintro ⟨loop, hloop, attributes, hattributes, content, hcontent, children, hchildren, rfl⟩
    exact ⟨rfl, rfl, hcontent, hattributes, hloop, hchildren, rfl, rfl⟩
  · intro h
    obtain ⟨kind, tag, text, attributes, slot, conditions, loop, children, extra⟩ := t
    refine ⟨loop, h.loop, attributes, h.attributes, (text, slot), h.content, children, h.children, ?_⟩
    rw [← h.kind, ← h.tag, ← h.extra, ← h.conditions]

/-- A text node that holds an expression shows that, any other node its text. -/
theorem simplifyText_ok {kind : NodeKind} {text shown : Option String} {slot : Option Slot}
    (done : (simplifyText f kind text).result = .ok (shown, slot)) :
    (∃ raw tree, kind = .text ∧ text = some raw ∧ f.boundTree? raw = some tree ∧
      shown = none ∧ slot = some (.text tree)) ∨
    ((kind = .text → ∀ raw, text = some raw → f.boundTree? raw = none) ∧ shown = text ∧ slot = none) := by
  unfold simplifyText at done
  split at done
  · rename_i raw
    simp only [Trace.bind_ok_iff] at done
    obtain ⟨extracted, hextracted, done⟩ := done
    have bound := Frontend.boundTree?_of_extract hextracted
    cases extracted with
    | some tree =>
      simp only [Trace.pure_result, Except.ok.injEq, Prod.mk.injEq] at done
      exact Or.inl ⟨raw, tree, rfl, rfl, bound, done.1.symm, done.2.symm⟩
    | none =>
      simp only [Trace.pure_result, Except.ok.injEq, Prod.mk.injEq] at done
      refine Or.inr ⟨fun _ raw' same => ?_, done.1.symm, done.2.symm⟩
      cases same
      exact bound
  · rename_i other
    simp only [Trace.pure_result, Except.ok.injEq, Prod.mk.injEq] at done
    exact Or.inr ⟨fun kind' raw same => (other raw kind' same).elim, done.1.symm, done.2.symm⟩

/-! ## Siblings -/

/-- What became of a child, where `reach` says whether a branch at its place reaches
the start of a chain. -/
inductive PlacedAs (f : Frontend) (s : Spelling) (reach : Bool) (n : Node) : Placed → Prop where
  | vacant (placeholder : n.isPlaceholder = true) : PlacedAs f s reach n .vacant
  | start {source : String} {e : Expr} {t : Tree.Node} (present : n.isPlaceholder = false)
      (role : Role.of n = .start source) (parsed : f.parser source = .ok e)
      (node : Simplified f s n t) : PlacedAs f s reach n (.start e t (isDead n))
  | branch {source : Option String} {e : Option Expr} {t : Tree.Node}
      (present : n.isPlaceholder = false) (role : Role.of n = .branch source) (reached : reach = true)
      (parsed : (f.parseOptional source).result = .ok e) (node : Simplified f s n t) :
      PlacedAs f s reach n (.branch (.branch e t))
  | orphan {source : Option String} {t : Tree.Node} (present : n.isPlaceholder = false)
      (role : Role.of n = .branch source) (unreached : reach = false) (node : Simplified f s n t) :
      PlacedAs f s reach n (.plain t (isDead n))
  | plain {t : Tree.Node} (present : n.isPlaceholder = false) (role : Role.of n = .none)
      (node : Simplified f s n t) : PlacedAs f s reach n (.plain t (isDead n))

/-- Several siblings, each placed after those before it. -/
inductive PlacedAll (f : Frontend) (s : Spelling) : Bool → List Node → List Placed → Prop where
  | nil {reach : Bool} : PlacedAll f s reach [] []
  | cons {reach : Bool} {n : Node} {p : Placed} {nodes : List Node} {placed : List Placed}
      (first : PlacedAs f s reach n p) (rest : PlacedAll f s (reachAfter reach n) nodes placed) :
      PlacedAll f s reach (n :: nodes) (p :: placed)

theorem placed_of_placeAll {reach : Bool} {nodes : List Node} {placed : List Placed}
    (done : (placeAll f s reach nodes).result = .ok placed) : PlacedAll f s reach nodes placed := by
  induction nodes generalizing reach placed with
  | nil =>
    simp only [placeAll, Trace.pure_result, Except.ok.injEq] at done
    subst done
    exact .nil
  | cons n nodes ih =>
    simp only [placeAll, Trace.bind_ok_iff, Trace.pure_result, Except.ok.injEq] at done
    obtain ⟨p, first, placed, rest, rfl⟩ := done
    refine .cons ?_ (ih rest)
    -- The cases are those of `placeAll`: a placeholder, then the role, then whether a start is reached.
    split at first
    · rename_i placeholder
      cases first
      exact .vacant placeholder
    · rename_i present
      have present := Bool.eq_false_iff.2 present
      split at first
      · rename_i source role
        simp only [Trace.bind_ok_iff, Frontend.parse_result, Trace.pure_result, Except.ok.injEq,
          simplifyNode_ok_iff] at first
        obtain ⟨e, parsed, t, node, rfl⟩ := first
        exact .start present role parsed node
      · rename_i source role
        split at first
        · rename_i reached
          simp only [Trace.bind_ok_iff, Trace.pure_result, Except.ok.injEq, simplifyNode_ok_iff] at first
          obtain ⟨e, parsed, t, node, rfl⟩ := first
          exact .branch present role reached parsed node
        · rename_i unreached
          simp only [Trace.bind_ok_iff, Trace.pure_result, Except.ok.injEq, simplifyNode_ok_iff] at first
          obtain ⟨t, node, rfl⟩ := first
          exact .orphan present role (Bool.eq_false_iff.2 unreached) node
      · rename_i role
        simp only [Trace.bind_ok_iff, Trace.pure_result, Except.ok.injEq, simplifyNode_ok_iff] at first
        obtain ⟨t, node, rfl⟩ := first
        exact .plain present role node

/-- The children of a result are the placed siblings, chains folded; none if nothing
is left. -/
theorem placed_of_simplifyChildren {children : Option (List Node)} {kids : Option (List Tree.Node)}
    (done : (simplifyChildren f s children).result = .ok kids) :
    ∃ placed, PlacedAll f s false (children.getD []) placed ∧ kids = unlessEmpty (assemble placed) := by
  cases children with
  | none =>
    simp only [simplifyChildren, Trace.pure_result, Except.ok.injEq] at done
    exact ⟨[], .nil, done.symm⟩
  | some nodes =>
    simp only [simplifyChildren, Trace.bind_ok_iff, Trace.pure_result, Except.ok.injEq] at done
    obtain ⟨placed, hplaced, rfl⟩ := done
    exact ⟨placed, placed_of_placeAll hplaced, rfl⟩

@[simp] theorem unlessEmpty_getD {α : Type} (xs : List α) : (unlessEmpty xs).getD [] = xs := by
  cases xs with
  | nil => rfl
  | cons x xs => rfl

/-! ## Where the children of a result come from -/

/-- A condition that stands for one of several siblings. -/
def BranchOf (f : Frontend) (s : Spelling) (nodes : List Node) (c : Tree.Condition Tree.Node) : Prop :=
  ∃ n ∈ nodes, ∃ (e : Option Expr) (t : Tree.Node), Simplified f s n t ∧ c = .branch e t

/-- A node that stays of several siblings: one of them, or one with the conditions of
its chain. -/
inductive KeptOf (f : Frontend) (s : Spelling) (nodes : List Node) : Tree.Node → Prop where
  | plain {n : Node} {t : Tree.Node} (member : n ∈ nodes) (node : Simplified f s n t) :
      KeptOf f s nodes t
  | anchored {n : Node} {e : Expr} {t : Tree.Node} {branches : List (Tree.Condition Tree.Node)}
      (member : n ∈ nodes) (node : Simplified f s n t) (folded : ∀ c ∈ branches, BranchOf f s nodes c) :
      KeptOf f s nodes (anchored e t branches)

theorem BranchOf.cons {nodes : List Node} {c : Tree.Condition Tree.Node} (n : Node)
    (h : BranchOf f s nodes c) : BranchOf f s (n :: nodes) c := by
  obtain ⟨m, member, rest⟩ := h
  exact ⟨m, by simp [member], rest⟩

theorem KeptOf.cons {nodes : List Node} {t : Tree.Node} (n : Node) (h : KeptOf f s nodes t) :
    KeptOf f s (n :: nodes) t := by
  cases h with
  | plain member node => exact .plain (by simp [member]) node
  | anchored member node folded =>
    exact .anchored (by simp [member]) node fun c found => (folded c found).cons n

theorem mem_keepUnless {dead : Bool} {t k : Tree.Node} {rest : List Tree.Node}
    (member : k ∈ keepUnless dead t rest) : k = t ∨ k ∈ rest := by
  unfold keepUnless at member
  split at member
  · exact Or.inr member
  · exact List.mem_cons.1 member

theorem PlacedAll.gathered {reach : Bool} {nodes : List Node} {placed : List Placed}
    (all : PlacedAll f s reach nodes placed) :
    (∀ c ∈ (gather placed).1, BranchOf f s nodes c) ∧ ∀ t ∈ (gather placed).2, KeptOf f s nodes t := by
  induction all with
  | nil => simp [gather]
  | @cons reach n p nodes placed first rest ih =>
    obtain ⟨branches, kept⟩ := ih
    have branches' : ∀ c ∈ (gather placed).1, BranchOf f s (n :: nodes) c :=
      fun c found => (branches c found).cons n
    have kept' : ∀ t ∈ (gather placed).2, KeptOf f s (n :: nodes) t :=
      fun t found => (kept t found).cons n
    have alone : ∀ t, Simplified f s n t →
        ∀ k ∈ keepUnless (isDead n) t (gather placed).2, KeptOf f s (n :: nodes) k := by
      intro t node k found
      rcases mem_keepUnless found with rfl | found
      · exact .plain (by simp) node
      · exact kept' k found
    cases first with
    | vacant => exact ⟨branches', kept'⟩
    | start present role parsed node =>
      refine ⟨by simp [gather], fun k found => ?_⟩
      rcases mem_keepUnless found with rfl | found
      · exact .anchored (by simp) node branches'
      · exact kept' k found
    | branch present role reached parsed node =>
      refine ⟨fun c found => ?_, kept'⟩
      rcases List.mem_cons.1 found with rfl | found
      · exact ⟨n, by simp, _, _, node, rfl⟩
      · exact branches' c found
    | orphan present role unreached node => exact ⟨branches', alone _ node⟩
    | plain present role node => exact ⟨branches', alone _ node⟩

/-- **Every child of a result stands for a child of the node**, and so does every
branch of it. -/
theorem Simplified.kept {n : Node} {t : Tree.Node} (h : Simplified f s n t) :
    ∀ k ∈ t.childList, KeptOf f s n.childList k := by
  obtain ⟨placed, all, same⟩ := placed_of_simplifyChildren h.children
  intro k member
  rw [Tree.Node.childList, same, unlessEmpty_getD] at member
  exact all.gathered.2 k member

/-! ## The whole pass -/

/-- The pass makes of a tree what it makes of the root, if that passes the check. -/
theorem simplifyWith_eq (f : Frontend) (options : Options) (root : Node) :
    simplifyWith f options root =
      (simplifyRoot f options.mode.spelling root).result.bind (validated options) := by
  unfold simplifyWith simplifyTraced
  simp only [Bind.bind, Trace.bind]
  cases (simplifyRoot f options.mode.spelling root).result with
  | ok t => rfl
  | error e => rfl

/-- The check asks nothing. -/
theorem simplifyTraced_calls (f : Frontend) (options : Options) (root : Node) :
    (simplifyTraced f options root).calls = (simplifyRoot f options.mode.spelling root).calls := by
  unfold simplifyTraced
  simp only [Bind.bind, Trace.bind]
  cases (simplifyRoot f options.mode.spelling root).result with
  | ok t => simp
  | error e => rfl

end MiniTemplate.Pass
