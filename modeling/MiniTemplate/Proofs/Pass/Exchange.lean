import MiniTemplate.Proofs.Pass.Noninterference
import MiniTemplate.Proofs.Pass.Spent
import MiniTemplate.Proofs.Tree.Verdict

/-!
# Values traded for expressions

An attribute that is no directive stays under its name and with its extra members. It keeps its
literal value, or trades it for expressions, which may come from five places: an earlier stage, the
fragments of a class or a style, the handlers of events, the value itself, or nowhere. `SlotFrom`
says which place counts, and `Exchanged` what becomes of the attribute. `simplifyAttributes_exchange`
says so of lists of any length, for every dialect and every front end.
-/

namespace MiniTemplate.Pass

open Markup (Attribute)
open Script (Expr)

variable {f : Frontend} {a : Attribute}

/-! ## Where expressions come from -/

/-- The static and the dynamic fragment that an attribute's name calls for, if it calls for any. -/
def fragments? (a : Attribute) : Option (Option String × Option String) :=
  if a.name = "class" then some (a.staticClass, a.dynamicClass)
  else if a.name = "style" then some (a.staticStyle, a.dynamicStyle)
  else none

/-- The names whose expressions come from elsewhere than the value. -/
def specialNames : List String := ["class", "style", "data-eventconfigs"]

/-- An attribute's value holds an expression. -/
def IsBoundValue (f : Frontend) (a : Attribute) : Prop :=
  ∃ raw, a.value = some raw ∧ (f.detector raw).hasBinding = true

/-- The tree of the expression that an attribute's value holds. -/
inductive BoundTree (f : Frontend) (a : Attribute) (tree : Expr) : Prop where
  | mk {raw : String} (value : a.value = some raw) (bound : (f.detector raw).hasBinding = true)
      (parsed : f.parser (f.detector raw).normalized = .ok tree) : BoundTree f a tree

/-- The tree of a fragment: none exactly if the fragment is absent or empty. -/
inductive FragmentTree (f : Frontend) : Option String → Option Expr → Prop where
  | blank {fragment : Option String} (blank : Blank fragment) : FragmentTree f fragment none
  | written {source : String} {tree : Expr} (written : source ≠ "")
      (parsed : f.parser source = .ok tree) : FragmentTree f (some source) (some tree)

/-- The trees of an event's handlers, in order; an event may have none. -/
structure HandlerTrees (f : Frontend) (entry : String × Option (List String)) (h : Handlers) :
    Prop where
  event : h.event = entry.1
  handlers : List.Forall₂ (fun source tree => f.parser source = .ok tree) (entry.2.getD []) h.handlers

/-- **What is extracted from an attribute** that no earlier stage has extracted from: the kind of
slot by the name, and what it holds. -/
inductive Extracted (f : Frontend) (a : Attribute) : Slot → Prop where
  | fragments {static dynamic : Option String} {first second : Option Expr}
      (named : fragments? a = some (static, dynamic)) (left : FragmentTree f static first)
      (right : FragmentTree f dynamic second) (written : ¬ (first = none ∧ second = none)) :
      Extracted f a (.classOrStyle [first, second])
  | whole {static dynamic : Option String} {tree : Expr}
      (named : fragments? a = some (static, dynamic)) (blank : Blank static ∧ Blank dynamic)
      (bound : BoundTree f a tree) : Extracted f a (.classOrStyle [some tree])
  | handlers {events : List (String × Option (List String))} {hs : List Handlers}
      (named : a.name = "data-eventconfigs") (mapped : a.events = some events)
      (each : List.Forall₂ (HandlerTrees f) events hs) : Extracted f a (.eventMap hs)
  | generic {tree : Expr} (named : a.name ∉ specialNames) (bound : BoundTree f a tree) :
      Extracted f a (.generic tree)

/-- **An attribute has a place for expressions to come from.** -/
inductive HasSource (f : Frontend) (a : Attribute) : Prop where
  | known (known : a.slot ≠ none)
  | fragment {static dynamic : Option String} (named : fragments? a = some (static, dynamic))
      (written : ¬ (Blank static ∧ Blank dynamic))
  | styled {static dynamic : Option String} (named : fragments? a = some (static, dynamic))
      (bound : IsBoundValue f a)
  | handlers (named : a.name = "data-eventconfigs") (mapped : a.events ≠ none)
  | generic (named : a.name ∉ specialNames) (bound : IsBoundValue f a)

/-- **What becomes of an attribute**: name and extra members stay, and so does the value unless
there is a slot. What an earlier stage has extracted is taken over, where the kinds that belong to
nodes become general. -/
structure Exchanged (f : Frontend) (a : Attribute) (b : Tree.Attribute) : Prop where
  name : b.name = a.name
  extra : b.extra = a.extra
  sourced : b.slot ≠ none ↔ HasSource f a
  kept : b.slot = none → b.value = a.value
  traded : b.slot ≠ none → b.value = none
  known : ∀ slot, a.slot = some slot → (∀ tree, slot ≠ .text tree ∧ slot ≠ .loop tree) →
    b.slot = some slot
  generalized : ∀ tree, a.slot = some (.text tree) ∨ a.slot = some (.loop tree) →
    b.slot = some (.generic tree)
  extracted : a.slot = none → ∀ slot, b.slot = some slot → Extracted f a slot

/-! ## One attribute -/

/-- Which of the places counts: the first in this order that the attribute has. -/
inductive SlotFrom (f : Frontend) (a : Attribute) : Option Slot → Prop where
  | known {slot : Slot} (known : a.slot = some slot) : SlotFrom f a (some (reuse slot))
  | extracted {slot : Slot} (fresh : a.slot = none) (extracted : Extracted f a slot) :
      SlotFrom f a (some slot)
  | literal (sourceless : ¬ HasSource f a) : SlotFrom f a none

theorem valueTree_ok {tree : Option Expr} (done : (valueTree f a).result = .ok tree) :
    (∃ e, tree = some e ∧ BoundTree f a e) ∨ (tree = none ∧ ¬ IsBoundValue f a) := by
  unfold valueTree at done
  cases value : a.value with
  | none =>
    rw [value] at done
    cases done
    refine Or.inr ⟨rfl, ?_⟩
    rintro ⟨raw, found, -⟩
    rw [value] at found
    cases found
  | some raw =>
    rw [value] at done
    rcases Frontend.extract_ok_iff.1 done with ⟨literal, rfl⟩ | ⟨e, bound, parsed, rfl⟩
    · refine Or.inr ⟨rfl, ?_⟩
      rintro ⟨other, found, bound⟩
      rw [value, Option.some.injEq] at found
      subst found
      rw [literal] at bound
      cases bound
    · exact Or.inl ⟨e, rfl, value, bound, parsed⟩

theorem authored_eq_some_iff {fragment : Option String} {source : String} :
    authored fragment = some source ↔ fragment = some source ∧ source ≠ "" := by
  cases fragment with
  | none => simp [authored]
  | some text =>
    by_cases empty : text = ""
    · subst empty
      simp [authored]
    · have written : text.isEmpty = false := by simpa [Bool.eq_false_iff, String.isEmpty_iff] using empty
      simp only [authored, written, Bool.false_eq_true, if_false, Option.some.injEq]
      constructor
      · rintro rfl
        exact ⟨rfl, empty⟩
      · exact And.left

theorem fragmentTree_of_parseOptional {fragment : Option String} {tree : Option Expr}
    (done : (f.parseOptional (authored fragment)).result = .ok tree) :
    FragmentTree f fragment tree := by
  rcases Frontend.parseOptional_ok_iff.1 done with ⟨absent, rfl⟩ | ⟨source, e, found, rfl, parsed⟩
  · exact .blank (authored_eq_none_iff.1 absent)
  · obtain ⟨rfl, written⟩ := authored_eq_some_iff.1 found
    exact .written written parsed

theorem FragmentTree.eq_none_iff {fragment : Option String} {tree : Option Expr}
    (h : FragmentTree f fragment tree) : tree = none ↔ Blank fragment := by
  cases h with
  | blank blank => exact ⟨fun _ => blank, fun _ => rfl⟩
  | written written parsed => simp [Blank, written]

/-- Fragments count if one of them is written, and else the value. -/
theorem slotFrom_of_fragmentSlot {static dynamic : Option String} {slot : Option Slot}
    (fresh : a.slot = none) (named : fragments? a = some (static, dynamic))
    (done : (fragmentSlot f a static dynamic).result = .ok slot) : SlotFrom f a slot := by
  unfold fragmentSlot at done
  split at done
  · rename_i written
    simp only [Trace.bind_ok_iff, Trace.pure_result, Except.ok.injEq] at done
    obtain ⟨first, left, second, right, rfl⟩ := done
    have left := fragmentTree_of_parseOptional left
    have right := fragmentTree_of_parseOptional right
    refine .extracted fresh (.fragments named left right ?_)
    -- Without either tree both fragments would be blank, and then the value would count.
    rw [left.eq_none_iff, right.eq_none_iff, ← authored_eq_none_iff, ← authored_eq_none_iff]
    rintro ⟨first, second⟩
    simp [first, second] at written
  · rename_i absent
    simp only [Bool.or_eq_true, not_or, Bool.not_eq_true, Option.isSome_eq_false_iff,
      Option.isNone_iff_eq_none, authored_eq_none_iff] at absent
    simp only [Trace.bind_ok_iff, Trace.pure_result, Except.ok.injEq] at done
    obtain ⟨tree, value, rfl⟩ := done
    rcases valueTree_ok value with ⟨e, rfl, bound⟩ | ⟨rfl, literal⟩
    · exact .extracted fresh (.whole named absent bound)
    · refine .literal fun source => ?_
      cases source with
      | known known => exact known fresh
      | fragment other written =>
        rw [named] at other
        cases other
        exact written absent
      | styled _ bound => exact literal bound
      | handlers events => simp [fragments?, events] at named
      | generic other bound => exact literal bound

theorem handlerTrees_of_parseAll {sources : List String} {trees : List Expr}
    (done : (f.parseAll sources).result = .ok trees) :
    List.Forall₂ (fun source tree => f.parser source = .ok tree) sources trees := by
  induction sources generalizing trees with
  | nil =>
    cases done
    exact .nil
  | cons source sources ih =>
    simp only [Frontend.parseAll, Trace.bind_ok_iff, Frontend.parse_result, Trace.pure_result,
      Except.ok.injEq] at done
    obtain ⟨tree, parsed, rest, later, rfl⟩ := done
    exact .cons parsed (ih later)

theorem handlerTrees_of_eventTrees {events : List (String × Option (List String))}
    {hs : List Handlers} (done : (eventTrees f events).result = .ok hs) :
    List.Forall₂ (HandlerTrees f) events hs := by
  induction events generalizing hs with
  | nil =>
    cases done
    exact .nil
  | cons event events ih =>
    obtain ⟨name, sources⟩ := event
    simp only [eventTrees, Trace.bind_ok_iff, Trace.pure_result, Except.ok.injEq] at done
    obtain ⟨handlers, first, rest, later, rfl⟩ := done
    exact .cons ⟨rfl, handlerTrees_of_parseAll first⟩ (ih later)

/-- Handlers count if there is a map of them; the value never does. -/
theorem slotFrom_of_eventSlot {slot : Option Slot} (fresh : a.slot = none)
    (named : a.name = "data-eventconfigs") (done : (eventSlot f a).result = .ok slot) :
    SlotFrom f a slot := by
  unfold eventSlot at done
  cases mapped : a.events with
  | some events =>
    simp only [mapped, Trace.bind_ok_iff, Trace.pure_result, Except.ok.injEq] at done
    obtain ⟨hs, each, rfl⟩ := done
    exact .extracted fresh (.handlers named mapped (handlerTrees_of_eventTrees each))
  | none =>
    rw [mapped] at done
    cases done
    have plain : fragments? a = none := by simp [fragments?, named]
    refine .literal fun source => ?_
    cases source with
    | known known => exact known fresh
    | fragment other => simp [plain] at other
    | styled other => simp [plain] at other
    | handlers _ some => exact some mapped
    | generic other => simp [specialNames, named] at other

/-- **The slot of an attribute comes from the first place that it has**: one case for each name
that calls for a place of its own. -/
theorem slotFrom_of_attributeSlot {slot : Option Slot}
    (done : (attributeSlot f a).result = .ok slot) : SlotFrom f a slot := by
  unfold attributeSlot at done
  cases extracted : a.slot with
  | some known =>
    rw [extracted] at done
    cases done
    exact .known extracted
  | none =>
    simp only [extracted, beq_iff_eq] at done
    by_cases isClass : a.name = "class"
    · rw [if_pos isClass] at done
      exact slotFrom_of_fragmentSlot extracted (by rw [fragments?, if_pos isClass]) done
    rw [if_neg isClass] at done
    by_cases isStyle : a.name = "style"
    · rw [if_pos isStyle] at done
      exact slotFrom_of_fragmentSlot extracted (by rw [fragments?, if_neg isClass, if_pos isStyle]) done
    rw [if_neg isStyle] at done
    by_cases isEvents : a.name = eventsName
    · rw [if_pos isEvents] at done
      exact slotFrom_of_eventSlot extracted isEvents done
    rw [if_neg isEvents] at done
    have other : a.name ∉ specialNames := by
      simpa [specialNames, eventsName] using And.intro isClass (And.intro isStyle isEvents)
    simp only [Trace.bind_ok_iff, Trace.pure_result, Except.ok.injEq] at done
    obtain ⟨tree, value, rfl⟩ := done
    rcases valueTree_ok value with ⟨e, rfl, bound⟩ | ⟨rfl, literal⟩
    · exact .extracted extracted (.generic other bound)
    · have plain : fragments? a = none := by rw [fragments?, if_neg isClass, if_neg isStyle]
      refine .literal fun source => ?_
      cases source with
      | known known => exact known extracted
      | fragment named => simp [plain] at named
      | styled named => simp [plain] at named
      | handlers named => exact isEvents named
      | generic _ bound => exact literal bound

theorem BoundTree.isBoundValue {tree : Expr} (h : BoundTree f a tree) : IsBoundValue f a := by
  obtain ⟨value, bound, -⟩ := h
  exact ⟨_, value, bound⟩

theorem Extracted.hasSource {slot : Slot} (h : Extracted f a slot) : HasSource f a := by
  cases h with
  | fragments named left right written =>
    rw [left.eq_none_iff, right.eq_none_iff] at written
    exact .fragment named written
  | whole named blank bound => exact .styled named bound.isBoundValue
  | handlers named mapped each => exact .handlers named (by simp [mapped])
  | generic named bound => exact .generic named bound.isBoundValue

theorem reuse_of_own {slot : Slot} (own : ∀ tree, slot ≠ .text tree ∧ slot ≠ .loop tree) :
    reuse slot = slot := by
  apply reuse_eq_of_kind
  constructor
  · rw [Bool.eq_false_iff, ne_eq, Tree.isTextSlot_iff]
    rintro ⟨tree, rfl⟩
    exact (own tree).1 rfl
  · rw [Bool.eq_false_iff, ne_eq, Tree.isLoopSlot_iff]
    rintro ⟨tree, rfl⟩
    exact (own tree).2 rfl

/-- **An attribute that is simplified is exchanged.** -/
theorem exchanged_of_simplifyAttribute {b : Tree.Attribute}
    (done : (simplifyAttribute f a).result = .ok b) : Exchanged f a b := by
  simp only [simplifyAttribute, Trace.bind_ok_iff, Trace.pure_result, Except.ok.injEq] at done
  obtain ⟨slot, found, rfl⟩ := done
  cases slotFrom_of_attributeSlot found with
  | @known slot known =>
    refine ⟨rfl, rfl, ⟨fun _ => .known (by simp [known]), fun _ => by simp⟩, by simp, fun _ => rfl,
      fun other same own => ?_, fun tree same => ?_, fun fresh => ?_⟩
    · rw [known] at same
      cases same
      rw [reuse_of_own own]
    · rw [known] at same
      rcases same with same | same
      · cases same
        rfl
      · cases same
        rfl
    · rw [known] at fresh
      cases fresh
  | extracted fresh extracted =>
    refine ⟨rfl, rfl, ⟨fun _ => extracted.hasSource, fun _ => by simp⟩, by simp, fun _ => rfl,
      by simp [fresh], by simp [fresh], fun _ other same => ?_⟩
    cases same
    exact extracted
  | literal sourceless =>
    have fresh : a.slot = none := by
      by_contra known
      exact sourceless (.known known)
    refine ⟨rfl, rfl, by simp [sourceless], fun _ => rfl, by simp, by simp [fresh], by simp [fresh],
      by simp⟩

/-! ## Lists of attributes -/

theorem isDirective_iff {d : Dialect} {label : String} :
    d.isDirective label = true ↔ ∃ directive, label = d.name directive := by
  rw [← not_iff_not, Bool.not_eq_true, Tree.isDirective_eq_false_iff, not_exists]

theorem exchanged_of_simplifyAttributes {d : Dialect} {as : List Attribute}
    {out : Option (List Tree.Attribute)} (done : (simplifyAttributes f d as).result = .ok out) :
    List.Forall₂ (Exchanged f) (as.filter fun a => !d.isDirective a.name) (out.getD []) := by
  simp only [simplifyAttributes, Trace.bind_ok_iff, Trace.pure_result, Except.ok.injEq] at done
  obtain ⟨bs, list, rfl⟩ := done
  rw [unlessEmpty_getD]
  exact (simplifyAttributeList_ok_iff.1 list).imp fun a b simplified =>
    exchanged_of_simplifyAttribute simplified

/-- **Attributes are exchanged one by one, and none is lost**: the result has one entry for each
attribute that is no directive, in the order of writing, and is left out if there is none. -/
theorem simplifyAttributes_exchange (f : Frontend) (d : Dialect) (as : List Attribute)
    (out : Option (List Tree.Attribute)) (done : (simplifyAttributes f d as).result = .ok out) :
    (out = none ↔ ∀ a ∈ as, ∃ directive, a.name = d.name directive) ∧
      List.Forall₂ (Exchanged f) (as.filter fun a => !d.isDirective a.name) (out.getD []) := by
  simp only [simplifyAttributes, Trace.bind_ok_iff, Trace.pure_result, Except.ok.injEq] at done
  obtain ⟨bs, list, rfl⟩ := done
  have each := simplifyAttributeList_ok_iff.1 list
  constructor
  · have empty : unlessEmpty bs = none ↔ bs = [] := by
      cases bs with
      | nil => simp [unlessEmpty]
      | cons b bs => simp [unlessEmpty]
    have counted : bs = [] ↔ (as.filter fun a => !d.isDirective a.name) = [] := by
      rw [← List.length_eq_zero_iff, ← each.length_eq, List.length_eq_zero_iff]
    rw [empty, counted, List.filter_eq_nil_iff]
    refine forall₂_congr fun a _ => ?_
    simp [isDirective_iff]
  · rw [unlessEmpty_getD]
    exact each.imp fun a b simplified => exchanged_of_simplifyAttribute simplified

/-- A directive, fragments of which one is empty, an event without handlers, and a name that is
repeated, the second time with what an earlier stage has extracted. -/
def mixedAttributes : List Attribute :=
  [{ name := "wx:if", value := some "\x7b\x7ba\x7d\x7d" },
   { name := "class", value := some "p", staticClass := some "'p'", dynamicClass := some "" },
   { name := "data-eventconfigs", value := some "\x7b\x7bx\x7d\x7d"
     events := some [("tap", some ["go"]), ("hold", none)] },
   { name := "id", value := some "main" },
   { name := "style", value := some "\x7b\x7bwide\x7d\x7d", dynamicClass := some "(" },
   { name := "id", value := some "\x7b\x7b(\x7d\x7d", slot := some (.text (.identifier "k"))
     extra := [("note", .null)] }]

/-- All but the directive stay, in order, and each trades its value or keeps it. -/
theorem mixedAttributes_exchange :
    ∃ out, (simplifyAttributes .standard Mode.wx.spelling mixedAttributes).result = .ok (some out) ∧
      out.map (fun b => (b.name, b.value)) = [("class", none), ("data-eventconfigs", none),
        ("id", some "main"), ("style", none), ("id", none)] ∧
      List.Forall₂ (Exchanged .standard) mixedAttributes.tail out := by
  have run : (simplifyAttributes .standard Mode.wx.spelling mixedAttributes).result.toOption.any
      (fun out => out.any fun bs => decide (bs.map (fun b => (b.name, b.value)) =
        [("class", none), ("data-eventconfigs", none), ("id", some "main"), ("style", none),
          ("id", none)])) = true := by decide +kernel
  obtain ⟨out?, done, shape⟩ := (Option.any_eq_true _ _).1 run
  obtain ⟨out, rfl, shape⟩ := (Option.any_eq_true _ _).1 shape
  have done := ok_of_toOption done
  refine ⟨out, done, of_decide_eq_true shape, ?_⟩
  exact (simplifyAttributes_exchange .standard Mode.wx.spelling mixedAttributes _ done).2

end MiniTemplate.Pass
