import MiniTemplate.Proofs.Pass.Origin
import MiniTemplate.Proofs.Pass.Rendering

/-!
# Data that the pass hands through

Most of what a markup parser says of a node is not for the pass: it is copied to the result as it
is. `HandsThrough` says of one node which data that is and what becomes of the rest of it. A node may
be moved into the conditions of a sibling, and conditions may be put on it after it was built; the
main result, `result_hands_through`, says that neither touches the data: every node of a result has
it from the markup node that it comes from.
-/

namespace MiniTemplate.Pass

open Markup (Node)
open Script (Expr)

variable {f : Frontend} {s : Spelling}

/-! ## One node -/

/-- A text node whose text holds an expression. -/
def IsBoundText (f : Frontend) (n : Node) : Prop :=
  n.kind = .text ∧ ∃ raw, n.text = some raw ∧ (f.detector raw).hasBinding = true

/-- **A loop in the result**: all of the directive but its text, and its expression as a tree. -/
structure KeepsLoop (f : Frontend) (directive : Markup.Loop) (loop : Tree.Loop) : Prop where
  index : loop.index = directive.index
  item : loop.item = directive.item
  key : loop.key = directive.key
  extra : loop.extra = directive.extra
  tree : ∃ tree, f.parser directive.source = .ok tree ∧ loop.slot = .loop tree

/-- **What a node of a result has from the node that it comes from**: its kind, its tag unless that
is the transient one, its members but those that a parser keeps for itself, in their order, its text
unless that holds an expression, its loop if there is one, and the members of each attribute that is
no directive. -/
structure HandsThrough (f : Frontend) (s : Spelling) (n : Node) (u : Tree.Node) : Prop where
  kind : u.kind = n.kind
  tag : u.tag = n.tag.map shownTag
  extra : u.extra = passedThrough n.extra
  text : ¬ IsBoundText f n → u.text = n.text
  traded : IsBoundText f n → u.text = none
  loop : Option.Rel (KeepsLoop f) n.loop u.loop
  attributes : List.Forall₂ (fun a b => b.name = a.name ∧ b.extra = a.extra)
    (n.attributeList.filter fun a => !s.isDirective a.name) u.attributeList

theorem keepsLoop_of_simplifyLoop? {directive : Option Markup.Loop} {loop : Option Tree.Loop}
    (done : (simplifyLoop? f directive).result = .ok loop) :
    Option.Rel (KeepsLoop f) directive loop := by
  cases directive with
  | none =>
    cases done
    exact .none
  | some directive =>
    simp only [simplifyLoop?, simplifyLoop, Trace.bind_ok_iff, Frontend.parse_result,
      Trace.pure_result, Except.ok.injEq] at done
    obtain ⟨_, ⟨tree, parsed, rfl⟩, rfl⟩ := done
    exact .some ⟨rfl, rfl, rfl, rfl, tree, parsed, rfl⟩

/-- Only a text node whose text holds an expression loses its text. -/
theorem text_of_simplifyText {n : Node} {shown : Option String} {slot : Option Slot}
    (done : (simplifyText f n.kind n.text).result = .ok (shown, slot)) :
    (¬ IsBoundText f n → shown = n.text) ∧ (IsBoundText f n → shown = none) := by
  rcases simplifyText_ok done with ⟨raw, tree, kind, text, found, shown, -⟩ | ⟨literal, shown, -⟩
  · have bound : (f.detector raw).hasBinding = true := by
      by_contra absent
      rw [Frontend.boundTree?, if_neg absent] at found
      cases found
    exact ⟨fun unbound => absurd ⟨kind, raw, text, bound⟩ unbound, fun _ => shown⟩
  · refine ⟨fun _ => shown, ?_⟩
    rintro ⟨kind, raw, text, bound⟩
    rw [kind] at done
    have unbound := literal_of_simplifyText done (shown.trans text)
    rw [bound] at unbound
    cases unbound

theorem attributes_of_simplifyAttributes {as : List Markup.Attribute} {t : Tree.Node}
    (done : (simplifyAttributes f s as).result = .ok t.attributes) :
    List.Forall₂ (fun a b => b.name = a.name ∧ b.extra = a.extra)
      (as.filter fun a => !s.isDirective a.name) t.attributeList := by
  exact (exchanged_of_simplifyAttributes done).imp fun a b exchanged =>
    ⟨exchanged.name, exchanged.extra⟩

/-- **The step**: a node is handed through whatever conditions are put on it. -/
theorem handsThrough_of_simplified {n : Node} {u : Tree.Node}
    (node : Simplified f s n { u with conditions := none }) : HandsThrough f s n u := by
  have content : (simplifyText f n.kind n.text).result = .ok (u.text, u.slot) := node.content
  obtain ⟨text, traded⟩ := text_of_simplifyText content
  refine ⟨node.kind, ?_, node.extra.trans (simplifyExtra_eq n.extra), text, traded,
    keepsLoop_of_simplifyLoop? node.loop, attributes_of_simplifyAttributes node.attributes⟩
  have renamed : simplifyTag = shownTag := funext simplifyTag_eq
  rw [← renamed]
  exact node.tag

/-! ## All nodes of a result -/

/-- What the pass succeeds with is what it made of the root. -/
theorem simplifyRoot_of_simplifyWith {options : Options} {root : Node} {t : Tree.Node}
    (done : simplifyWith f options root = .ok t) :
    (simplifyRoot f options.mode.spelling root).result = .ok t := by
  rw [simplifyWith_eq] at done
  cases made : (simplifyRoot f options.mode.spelling root).result with
  | error e =>
    rw [made] at done
    cases done
  | ok u =>
    rw [made] at done
    change validated options u = .ok t at done
    unfold validated at done
    split at done
    · split at done
      · cases done
      · exact done
    · exact done

/-- **Data that is handed through survives everywhere**: each node of a result comes from a markup
node, and each node of a result has the data of the node that it comes from, however deep it stands
among children and branches. -/
theorem result_hands_through {options : Options} {root : Node} {t : Tree.Node}
    (done : simplifyWith f options root = .ok t) :
    (∀ u, t.Reaches u → ∃ n, ComesFrom root t n u) ∧
      ∀ n u, ComesFrom root t n u → HandsThrough f options.mode.spelling n u := by
  have made := simplifyRoot_of_simplifyWith done
  refine ⟨fun u reached => exists_comesFrom made reached, fun n u comes => ?_⟩
  exact handsThrough_of_simplified (became_of_comesFrom made comes).simplified

/-- A chain whose branch is a transient node with a loop, and has members of its own and of the
parser's. -/
def annotatedBranch : Node :=
  { Node.element "page" with
    children := some [
      { Node.element "view" with ifGuard := some { source := "a" } },
      { Node.element "temp-node" with
        isElse := true
        loop := some { source := "rows", index := some "i", extra := [("line", .null)] }
        attributes := some
          [{ name := "wx:for" }, { name := "id", extra := [("quoted", .bool true)] }]
        extra :=
          [("parent", .null), ("note", .str "n"), ("unary", .bool true), ("line", .null)] }] }

/-- The branch is found as a block of its sibling, with its own members only. -/
theorem annotatedBranch_hands_through :
    ∃ t k c v n, simplifyWith .standard { mode := .wx } annotatedBranch = .ok t ∧
      t.childList[0]? = some k ∧ k.conditionList[1]? = some c ∧ c.target = .block v ∧
      annotatedBranch.childList[1]? = some n ∧ ComesFrom annotatedBranch t n v ∧
      HandsThrough .standard Mode.wx.spelling n v ∧ v.tag = some "block" ∧
      v.extra = [("note", .str "n"), ("line", .null)] := by
  have run : (simplifyWith .standard { mode := .wx } annotatedBranch).toOption.any (fun t =>
      t.childList[0]?.any fun k => k.conditionList[1]?.any fun c => !c.target.isAnchor) = true := by
    decide +kernel
  obtain ⟨t, done, shape⟩ := (Option.any_eq_true _ _).1 run
  obtain ⟨k, here, shape⟩ := (Option.any_eq_true _ _).1 shape
  obtain ⟨c, condition, shape⟩ := (Option.any_eq_true _ _).1 shape
  have done := ok_of_toOption done
  cases target : c.target with
  | anchor => simp [target, Tree.Target.isAnchor] at shape
  | block v =>
    have comes : ComesFrom annotatedBranch t _ v :=
      .block (i := 0) (j := 0) (p := 0) (q := 1) .root here (by decide +kernel) condition target
        (by decide +kernel) rfl
    have through := (result_hands_through done).2 _ v comes
    exact ⟨t, k, c, v, _, done, here, condition, target, rfl, comes, through, through.tag,
      through.extra⟩

end MiniTemplate.Pass
