import MiniTemplate.Proofs.Pass.Conformance
import MiniTemplate.Tree.Codec

/-!
# What the pass leaves to extract

Nothing: a result is `Spent`. Each of its attributes has a slot that an attribute may hold, or
a value in which no expression is found, and so has each text. A trace that finds nothing asks
for no tree, which is `Trace.Quiet`. A result also keeps, beside what it declares, only what a
markup tree may keep, if the tree that it comes from does.
-/

namespace MiniTemplate.Pass

open Json (Members)
open Markup (Node)
open Script (Expr)
open MiniTemplate.Tree (transientTag)

variable {f : Frontend} {s : Spelling}

/-! ## Traces that ask for no tree -/

/-- A trace that gives a result without asking for the tree of any source. -/
structure Trace.Quiet {α : Type} (t : Trace α) (a : α) : Prop where
  result : t.result = .ok a
  calls : ∀ source, Call.parse source ∉ t.calls

namespace Trace.Quiet

variable {α β : Type}

theorem pure (a : α) : Trace.Quiet (Pure.pure a) a := ⟨rfl, by simp [Pure.pure, Trace.pure]⟩

theorem bind {t : Trace α} {next : α → Trace β} {a : α} {b : β} (first : t.Quiet a)
    (later : (next a).Quiet b) : (t >>= next).Quiet b := by
  obtain ⟨calls, result⟩ := t
  obtain ⟨rfl, silent⟩ := first
  refine ⟨later.result, fun source asked => ?_⟩
  rcases List.mem_append.1 asked with asked | asked
  · exact silent source asked
  · exact later.calls source asked

/-- What is made of a result asks nothing more. -/
theorem map {t : Trace α} {a : α} (first : t.Quiet a) (g : α → β) :
    Trace.Quiet (do return g (← t)) (g a) :=
  first.bind (pure (g a))

end Trace.Quiet

/-- A text from which nothing is extracted is looked at and no more. -/
theorem quiet_extract {raw : String} (literal : (f.extract raw).result = .ok none) :
    (f.extract raw).Quiet none := by
  refine ⟨literal, fun source asked => ?_⟩
  simp only [Frontend.extract, Trace.bind_ok_iff, Frontend.detect_result, Except.ok.injEq] at literal
  obtain ⟨binding, rfl, literal⟩ := literal
  cases bound : (f.detector raw).hasBinding with
  | true =>
    rw [if_pos bound, Trace.bind_ok_iff] at literal
    obtain ⟨tree, -, literal⟩ := literal
    cases literal
  | false =>
    simp [Frontend.extract, Bind.bind, Trace.bind, Frontend.detect, bound, Pure.pure, Trace.pure] at asked

/-! ## Attributes -/

/-- An attribute from which nothing is left to extract. -/
structure SpentAttribute (f : Frontend) (s : Spelling) (a : Tree.Attribute) : Prop where
  authored : s.isDirective a.name = false
  extra : a.extra.KeptBy Markup.Attribute.declared
  slot : ∀ slot, a.slot = some slot → reuse slot = slot ∧ a.value = none
  literal : a.slot = none → (attributeSlot f { name := a.name, value := a.value }).Quiet none

theorem quiet_valueTree {a : Markup.Attribute} (literal : (valueTree f a).result = .ok none) :
    (valueTree f a).Quiet none := by
  unfold valueTree at literal ⊢
  cases value : a.value with
  | none => exact .pure none
  | some raw =>
    rw [value] at literal
    exact quiet_extract literal

/-- If no fragment is written and the value is literal, the value alone is literal too. -/
theorem quiet_fragmentSlot {a : Markup.Attribute} {static dynamic : Option String}
    (literal : (fragmentSlot f a static dynamic).result = .ok none) :
    (fragmentSlot f { name := a.name, value := a.value } none none).Quiet none := by
  unfold fragmentSlot at literal
  split at literal
  · simp only [Trace.bind_ok_iff, Trace.pure_result, Except.ok.injEq] at literal
    obtain ⟨first, -, second, -, same⟩ := literal
    cases same
  · simp only [Trace.bind_ok_iff, Trace.pure_result, Except.ok.injEq, Option.map_eq_none_iff] at literal
    obtain ⟨whole, extracted, rfl⟩ := literal
    exact (quiet_valueTree extracted).map _

theorem quiet_attributeSlot {a : Markup.Attribute} (literal : (attributeSlot f a).result = .ok none) :
    (attributeSlot f { name := a.name, value := a.value }).Quiet none := by
  unfold attributeSlot at literal ⊢
  cases known : a.slot with
  | some slot =>
    rw [known] at literal
    cases literal
  | none =>
    rw [known] at literal
    simp only at literal ⊢
    split
    · rename_i isClass
      rw [if_pos isClass] at literal
      exact quiet_fragmentSlot literal
    rename_i notClass
    rw [if_neg notClass] at literal
    split
    · rename_i isStyle
      rw [if_pos isStyle] at literal
      exact quiet_fragmentSlot literal
    rename_i notStyle
    rw [if_neg notStyle] at literal
    split
    · exact .pure none
    · rename_i notEvents
      rw [if_neg notEvents] at literal
      simp only [Trace.bind_ok_iff, Trace.pure_result, Except.ok.injEq, Option.map_eq_none_iff] at literal
      obtain ⟨whole, extracted, rfl⟩ := literal
      exact (quiet_valueTree extracted).map _

theorem reuse_eq_of_kind {slot : Slot}
    (kind : Tree.isTextSlot slot = false ∧ Tree.isLoopSlot slot = false) : reuse slot = slot := by
  cases slot with
  | text tree => cases kind.1
  | loop tree => cases kind.2
  | classOrStyle fragments => rfl
  | eventMap events => rfl
  | generic tree => rfl

/-- **Simplifying an attribute leaves nothing to extract.** -/
theorem spent_of_simplifyAttribute {a : Markup.Attribute} {b : Tree.Attribute}
    (kept : a.extra.KeptBy Markup.Attribute.declared) (authored : s.isDirective a.name = false)
    (done : (simplifyAttribute f a).result = .ok b) : SpentAttribute f s b := by
  simp only [simplifyAttribute, Trace.bind_ok_iff, Trace.pure_result, Except.ok.injEq] at done
  obtain ⟨slot, found, rfl⟩ := done
  refine ⟨authored, kept, fun other same => ?_, fun absent => ?_⟩
  · obtain rfl : slot = some other := same
    exact ⟨reuse_eq_of_kind (attributeSlot_kind found), rfl⟩
  · obtain rfl : slot = none := absent
    exact quiet_attributeSlot found

theorem spent_of_simplifyAttributeList {as : List Markup.Attribute} {bs : List Tree.Attribute}
    (kept : ∀ a ∈ as, a.extra.KeptBy Markup.Attribute.declared)
    (done : (simplifyAttributeList f s as).result = .ok bs) : ∀ b ∈ bs, SpentAttribute f s b := by
  intro b member
  obtain ⟨a, found, authored, simplified⟩ := exists_of_mem_simplifyAttributeList done b member
  exact spent_of_simplifyAttribute (kept a found) authored simplified

/-! ## Nodes -/

/-- A node from which nothing is left to extract, and which keeps what a node of a markup tree
may keep, whatever its conditions and its children are. -/
structure SpentNode (f : Frontend) (s : Spelling) (t : Tree.Node) : Prop where
  tag : t.tag ≠ some transientTag
  attributes : t.attributes ≠ some []
  each : ∀ a ∈ t.attributeList, SpentAttribute f s a
  content : (simplifyText f t.kind t.text).Quiet (t.text, none)
  extra : t.extra.KeptBy (Node.declared ++ Tree.Node.declared)
  kept : simplifyExtra t.extra = t.extra
  loop : ∀ l, t.loop = some l → l.extra.KeptBy Markup.Loop.declared
  children : t.children ≠ some []

/-- **A tree from which nothing is left to extract**: no node that children lead to. -/
inductive Spent (f : Frontend) (s : Spelling) : Tree.Node → Prop where
  | mk {t : Tree.Node} (own : SpentNode f s t) (below : ∀ c ∈ t.childList, Spent f s c) : Spent f s t

theorem Spent.anchored {e : Expr} {t : Tree.Node} {branches : List (Tree.Condition Tree.Node)}
    (spent : Spent f s t) : Spent f s (anchored e t branches) := by
  obtain ⟨own, below⟩ := spent
  refine .mk ?_ below
  exact ⟨own.tag, own.attributes, own.each, own.content, own.extra, own.kept, own.loop, own.children⟩

theorem quiet_simplifyText {kind : NodeKind} {text shown : Option String} {slot : Option Slot}
    (done : (simplifyText f kind text).result = .ok (shown, slot)) :
    (simplifyText f kind shown).Quiet (shown, none) := by
  cases kind with
  | element => exact .pure (shown, none)
  | text =>
    cases text with
    | none =>
      cases done
      exact .pure (none, none)
    | some raw =>
      simp only [simplifyText, Trace.bind_ok_iff] at done
      obtain ⟨extracted, found, done⟩ := done
      cases extracted with
      | some tree =>
        cases done
        exact .pure (none, none)
      | none =>
        cases done
        exact (quiet_extract found).bind (.pure (some raw, none))

/-- A loop keeps what the loop that it comes from keeps. -/
theorem simplifyLoop?_extra {loop : Option Markup.Loop} {out : Option Tree.Loop} {l : Tree.Loop}
    (done : (simplifyLoop? f loop).result = .ok out) (found : out = some l) :
    ∃ directive, loop = some directive ∧ l.extra = directive.extra := by
  subst found
  cases loop with
  | none => cases done
  | some directive =>
    simp only [simplifyLoop?, simplifyLoop, Trace.bind_ok_iff, Trace.pure_result, Except.ok.injEq,
      Option.some.injEq] at done
    obtain ⟨-, ⟨tree, -, rfl⟩, rfl⟩ := done
    exact ⟨directive, rfl, rfl⟩

theorem simplifyExtra_keptBy {extra : Members} (kept : extra.KeptBy Node.declared)
    (free : ∀ m ∈ extra, m.1 ≠ "__exps" ∧ m.1 ≠ "ifConditions") :
    (simplifyExtra extra).KeptBy (Node.declared ++ Tree.Node.declared) where
  toSettled := kept.toSettled.filter _
  apart m member := by
    have known : ∀ name ∈ Tree.Node.declared,
        name ∈ Node.declared ∨ name = "__exps" ∨ name = "ifConditions" := by decide
    have found := (List.mem_filter.1 member).1
    rw [List.mem_append]
    rintro (declared | declared)
    · exact kept.apart m found declared
    · rcases known m.1 declared with declared | same | same
      · exact kept.apart m found declared
      · exact (free m found).1 same
      · exact (free m found).2 same

/-- **A tree that no run has gone over**: at no depth does a node keep a member that only
results declare. -/
inductive Fresh : Node → Prop where
  | mk {n : Node} (own : ∀ m ∈ n.extra, m.1 ≠ "__exps" ∧ m.1 ≠ "ifConditions")
      (below : ∀ c ∈ n.childList, Fresh c) : Fresh n

/-- **What a node becomes is spent.** -/
theorem spent_of_simplified {n : Node} {t : Tree.Node} (kept : n.WellKept) (fresh : Fresh n)
    (h : Simplified f s n t) : Spent f s t := by
  induction kept generalizing t with
  | @mk n own attributes loop below ih =>
    obtain ⟨names, deeper⟩ := fresh
    have list := h.attributes
    simp only [simplifyAttributes, Trace.bind_ok_iff, Trace.pure_result, Except.ok.injEq] at list
    obtain ⟨simplified, list, same⟩ := list
    refine .mk ⟨?_, (simplifyAttributes_clean h.attributes).1, ?_, ?_, ?_, ?_, ?_, ?_⟩ fun k child => ?_
    · rw [h.tag]
      intro transient
      obtain ⟨tag, -, renamed⟩ := Option.map_eq_some_iff.1 transient
      exact simplifyTag_ne tag renamed
    · rw [Tree.Node.attributeList, ← same, unlessEmpty_getD]
      exact spent_of_simplifyAttributeList attributes list
    · rw [h.kind]
      exact quiet_simplifyText h.content
    · rw [h.extra]
      exact simplifyExtra_keptBy own names
    · rw [h.extra]
      simp [simplifyExtra]
    · intro l found
      obtain ⟨directive, source, same⟩ := simplifyLoop?_extra h.loop found
      rw [same]
      exact loop directive source
    · obtain ⟨placed, -, kids⟩ := placed_of_simplifyChildren h.children
      rw [kids]
      cases assemble placed <;> simp [unlessEmpty]
    · cases h.kept k child with
      | plain member node => exact ih _ member (deeper _ member) node
      | anchored member node folded => exact (ih _ member (deeper _ member) node).anchored

theorem spent_of_simplifyRoot {root : Node} {t : Tree.Node} (kept : root.WellKept) (fresh : Fresh root)
    (done : (simplifyRoot f s root).result = .ok t) : Spent f s t := by
  unfold simplifyRoot at done
  split at done
  · simp only [Trace.bind_ok_iff, Trace.pure_result, Except.ok.injEq, simplifyNode_ok_iff] at done
    obtain ⟨e, -, node, h, rfl⟩ := done
    exact (spent_of_simplified kept fresh h).anchored
  · exact spent_of_simplified kept fresh (simplifyNode_ok_iff.1 done)

end MiniTemplate.Pass
