import MiniTemplate.Proofs.Markup.Apart
import MiniTemplate.Proofs.Pass.Outcome
import MiniTemplate.Proofs.Tree.Breaches

/-!
# The pass keeps the contract

Each part of a simplified node keeps the rules that are about it, so a simplified
tree breaks none, and holding it against the contract changes nothing. The one rule
that depends on the input is the one about raw fields: the pass drops what the
parser keeps for itself, and a tree that was read has no other raw field as extra.
-/

namespace MiniTemplate.Pass

open Json (Members)
open Markup (Node)
open Script (Expr)
open MiniTemplate.Tree (rawFields bookkeepingFields transientTag hasMember isTextSlot isLoopSlot)

variable {f : Frontend} {s : Spelling}

/-! ## Attributes -/

theorem reuse_kind (slot : Slot) :
    isTextSlot (reuse slot) = false ∧ isLoopSlot (reuse slot) = false := by
  cases slot with
  | text tree => exact ⟨rfl, rfl⟩
  | loop tree => exact ⟨rfl, rfl⟩
  | classOrStyle fragments => exact ⟨rfl, rfl⟩
  | eventMap events => exact ⟨rfl, rfl⟩
  | generic tree => exact ⟨rfl, rfl⟩

theorem fragmentSlot_kind {a : Markup.Attribute} {static dynamic : Option String} {slot : Slot}
    (done : (fragmentSlot f a static dynamic).result = .ok (some slot)) :
    ∃ fragments, slot = .classOrStyle fragments := by
  unfold fragmentSlot at done
  split at done
  · simp only [Trace.bind_ok_iff, Trace.pure_result, Except.ok.injEq, Option.some.injEq] at done
    obtain ⟨first, -, second, -, rfl⟩ := done
    exact ⟨_, rfl⟩
  · simp only [Trace.bind_ok_iff, Trace.pure_result, Except.ok.injEq, Option.map_eq_some_iff] at done
    obtain ⟨-, -, whole, -, rfl⟩ := done
    exact ⟨_, rfl⟩

theorem eventSlot_kind {a : Markup.Attribute} {slot : Slot}
    (done : (eventSlot f a).result = .ok (some slot)) : ∃ events, slot = .eventMap events := by
  unfold eventSlot at done
  split at done
  · simp only [Trace.bind_ok_iff, Trace.pure_result, Except.ok.injEq, Option.some.injEq] at done
    obtain ⟨events, -, rfl⟩ := done
    exact ⟨events, rfl⟩
  · cases done

/-- An attribute holds no slot of the kinds that belong to nodes. -/
theorem attributeSlot_kind {a : Markup.Attribute} {slot : Slot}
    (done : (attributeSlot f a).result = .ok (some slot)) :
    isTextSlot slot = false ∧ isLoopSlot slot = false := by
  unfold attributeSlot at done
  split at done
  · cases done
    exact reuse_kind _
  · split at done
    · obtain ⟨fragments, rfl⟩ := fragmentSlot_kind done
      exact ⟨rfl, rfl⟩
    · split at done
      · obtain ⟨fragments, rfl⟩ := fragmentSlot_kind done
        exact ⟨rfl, rfl⟩
      · split at done
        · obtain ⟨events, rfl⟩ := eventSlot_kind done
          exact ⟨rfl, rfl⟩
        · simp only [Trace.bind_ok_iff, Trace.pure_result, Except.ok.injEq, Option.map_eq_some_iff] at done
          obtain ⟨-, -, tree, -, rfl⟩ := done
          exact ⟨rfl, rfl⟩

theorem simplifyAttribute_clean {a : Markup.Attribute} {b : Tree.Attribute}
    (authored : s.isDirective a.name = false) (done : (simplifyAttribute f a).result = .ok b) :
    b.Clean s := by
  simp only [simplifyAttribute, Trace.bind_ok_iff, Trace.pure_result, Except.ok.injEq] at done
  obtain ⟨slot, hslot, rfl⟩ := done
  refine ⟨authored, fun literal => ?_, fun other same => ?_⟩
  · cases slot with
    | none => rfl
    | some slot => cases literal
  · obtain rfl : slot = some other := same
    exact attributeSlot_kind hslot

theorem simplifyAttributeList_clean {as : List Markup.Attribute} {bs : List Tree.Attribute}
    (done : (simplifyAttributeList f s as).result = .ok bs) : ∀ b ∈ bs, b.Clean s := by
  intro b member
  obtain ⟨a, -, authored, simplified⟩ := exists_of_mem_simplifyAttributeList done b member
  exact simplifyAttribute_clean authored simplified

theorem simplifyAttributes_clean {as : List Markup.Attribute} {bs : Option (List Tree.Attribute)}
    (done : (simplifyAttributes f s as).result = .ok bs) :
    bs ≠ some [] ∧ ∀ b ∈ bs.getD [], b.Clean s := by
  simp only [simplifyAttributes, Trace.bind_ok_iff, Trace.pure_result, Except.ok.injEq] at done
  obtain ⟨list, hlist, rfl⟩ := done
  refine ⟨?_, by rw [unlessEmpty_getD]; exact simplifyAttributeList_clean hlist⟩
  cases list with
  | nil => simp [unlessEmpty]
  | cons b list => simp [unlessEmpty]

/-! ## The other parts of a node -/

theorem simplifyTag_ne (tag : String) : simplifyTag tag ≠ transientTag := by
  unfold simplifyTag
  split
  · decide
  · rename_i other
    simpa using other

theorem simplifyLoop?_kind {loop : Option Markup.Loop} {out : Option Tree.Loop}
    (done : (simplifyLoop? f loop).result = .ok out) :
    ∀ l, out = some l → isLoopSlot l.slot = true := by
  cases loop with
  | none =>
    cases done
    simp
  | some loop =>
    simp only [simplifyLoop?, simplifyLoop, Trace.bind_ok_iff, Trace.pure_result, Except.ok.injEq] at done
    obtain ⟨l, ⟨tree, -, rfl⟩, rfl⟩ := done
    intro l same
    cases same
    rfl

theorem simplifyText_kind {kind : NodeKind} {text shown : Option String} {slot : Option Slot}
    (done : (simplifyText f kind text).result = .ok (shown, slot)) :
    ∀ x, slot = some x → isTextSlot x = true ∧ kind = .text := by
  intro x same
  rcases simplifyText_ok done with ⟨raw, tree, isText, -, -, -, rfl⟩ | ⟨-, -, rfl⟩
  · cases same
    exact ⟨rfl, isText⟩
  · cases same

/-- What the pass does not drop itself of the raw fields is declared. -/
theorem mem_rawFields {field : String} (raw : field ∈ rawFields) :
    (bookkeepingFields.contains field || field == Node.placeholderMark) = true ∨
      field ∈ Node.declared := by
  have all : ∀ field ∈ rawFields,
      (bookkeepingFields.contains field || field == Node.placeholderMark) = true ∨
        field ∈ Node.declared := by decide
  exact all field raw

theorem simplifyExtra_fields {extra : Members} (apart : ∀ m ∈ extra, m.1 ∉ Node.declared) :
    ∀ field ∈ rawFields, hasMember (simplifyExtra extra) field = false := by
  intro field raw
  rw [hasMember, List.any_eq_false]
  intro m member named
  obtain ⟨member, kept⟩ := List.mem_filter.1 member
  obtain rfl : m.1 = field := by simpa using named
  rcases mem_rawFields raw with dropped | declared
  · rw [dropped] at kept
    cases kept
  · exact apart m member declared

/-! ## Trees -/

/-- A node that keeps its rules still does so as the start of a chain. -/
theorem breaches_anchored {e : Expr} {t : Tree.Node} {branches : List (Tree.Condition Tree.Node)}
    (clean : t.breaches s = [])
    (folded : ∀ c ∈ branches, ∃ (g : Option Expr) (b : Tree.Node), c = .branch g b ∧ b.breaches s = []) :
    (anchored e t branches).breaches s = [] := by
  obtain ⟨own, attributes, -, children⟩ := Tree.Node.breaches_eq_nil_iff.1 clean
  refine Tree.Node.breaches_eq_nil_iff.2 ⟨?_, attributes, fun c member b same => ?_, children⟩
  · refine ⟨own.fields, own.tag, own.attributes, own.slot, own.loop, fun k c found => ?_⟩
    cases k with
    | zero =>
      obtain rfl : Tree.Condition.anchor e = c := Option.some.inj found
      exact ⟨by simp [Tree.Condition.anchor, Tree.Target.isAnchor], rfl⟩
    | succ k =>
      obtain ⟨g, b, rfl, -⟩ := folded c (List.mem_of_getElem? (i := k) found)
      exact ⟨by simp [Tree.Condition.branch, Tree.Target.isAnchor], rfl⟩
  · rcases List.mem_cons.1 member with rfl | member
    · cases same
    · obtain ⟨g, block, rfl, clean⟩ := folded c member
      cases same
      exact clean

/-- **A simplified node breaks no rule**, nor does anything below it. -/
theorem breaches_of_simplified {n : Node} {t : Tree.Node} (apart : n.Apart)
    (h : Simplified f s n t) : t.breaches s = [] := by
  induction apart generalizing t with
  | @mk n own below ih =>
    have attributes := simplifyAttributes_clean h.attributes
    have noConditions : t.conditionList = [] := by rw [Tree.Node.conditionList, h.conditions]; rfl
    refine Tree.Node.breaches_eq_nil_iff.2 ⟨⟨?_, ?_, attributes.1, ?_, simplifyLoop?_kind h.loop, ?_⟩,
      attributes.2, ?_, fun k child => ?_⟩
    · rw [h.extra]
      exact simplifyExtra_fields own
    · rw [h.tag]
      intro same
      obtain ⟨tag, -, renamed⟩ := Option.map_eq_some_iff.1 same
      exact simplifyTag_ne tag renamed
    · rw [h.kind]
      exact simplifyText_kind h.content
    · simp [noConditions]
    · simp [noConditions]
    · cases h.kept k child with
      | plain member node => exact ih _ member node
      | anchored member node folded =>
        refine breaches_anchored (ih _ member node) fun c found => ?_
        obtain ⟨m, member, g, b, node, rfl⟩ := folded c found
        exact ⟨g, b, rfl, ih m member node⟩

theorem breaches_of_simplifyRoot {root : Node} {t : Tree.Node} (apart : root.Apart)
    (done : (simplifyRoot f s root).result = .ok t) : t.breaches s = [] := by
  unfold simplifyRoot at done
  split at done
  · simp only [Trace.bind_ok_iff, Trace.pure_result, Except.ok.injEq, simplifyNode_ok_iff] at done
    obtain ⟨e, -, node, h, rfl⟩ := done
    exact breaches_anchored (breaches_of_simplified apart h) (by simp)
  · exact breaches_of_simplified apart (simplifyNode_ok_iff.1 done)

/-- The check lets through what the pass makes of a tree whose extra members are apart. -/
theorem validated_of_apart {options : Options} {root : Node} {t : Tree.Node} (apart : root.Apart)
    (done : (simplifyRoot f options.mode.spelling root).result = .ok t) :
    validated options t = .ok t := by
  have clean := Tree.Node.violation?_eq_none_iff.2 (breaches_of_simplifyRoot apart done)
  simp [validated, clean]

/-- Where the pass keeps the contract, the check changes nothing. -/
theorem simplifyWith_eq_of_apart {options : Options} {root : Node} (apart : root.Apart) :
    simplifyWith f options root = (simplifyRoot f options.mode.spelling root).result := by
  rw [simplifyWith_eq]
  cases done : (simplifyRoot f options.mode.spelling root).result with
  | error e => rfl
  | ok t => exact validated_of_apart apart done

/-- **The pass meets the contract** on every tree that was read, and whether its result
is held against the contract makes no difference. -/
theorem simplify_meets_contract (f : Frontend) (mode : Mode) {v : Json} {root : Node}
    (read : Node.ofJson? v = some root) :
    (∀ t, (simplifyRoot f mode.spelling root).result = .ok t → t.violation? mode.spelling = none) ∧
    (∀ validates, simplifyWith f { mode, validates } root = (simplifyRoot f mode.spelling root).result) ∧
    simplifyWith f { mode, validates := true } root = simplifyWith f { mode, validates := false } root := by
  have apart := Node.apart_of_ofJson? read
  refine ⟨fun t done => ?_, fun validates => simplifyWith_eq_of_apart apart, ?_⟩
  · exact Tree.Node.violation?_eq_none_iff.2 (breaches_of_simplifyRoot apart done)
  · rw [simplifyWith_eq_of_apart apart, simplifyWith_eq_of_apart apart]

/-- A wrapper with a condition, a directive, a field of the parser and a chain below it. -/
theorem wrapper_meets_contract :
    ∃ root t, Node.ofJson? (.obj [("type", .num (.int 1)), ("tag", .str "temp-node"),
        ("unary", .bool true), ("if", .obj [("exp", .str "a")]),
        ("attrsList", .arr [.obj [("name", .str "wx:if"), ("value", .str "\x7b\x7ba\x7d\x7d")],
          .obj [("name", .str "class"), ("dynamicClassExp", .str "b")]]),
        ("children", .arr [.obj [("type", .num (.int 3)), ("text", .str "\x7b\x7bc\x7d\x7d"),
            ("if", .obj [("exp", .str "d")])],
          .obj [("type", .num (.int 1)), ("else", .bool true)]])]) = some root ∧
      (simplifyRoot .standard Mode.wx.spelling root).result = .ok t ∧
      t.violation? Mode.wx.spelling = none ∧
      simplifyWith .standard { mode := .wx, validates := true } root = .ok t := by
  have meets : ∀ {v root t}, Node.ofJson? v = some root →
      (simplifyRoot .standard Mode.wx.spelling root).result = .ok t →
      Node.ofJson? v = some root ∧ (simplifyRoot .standard Mode.wx.spelling root).result = .ok t ∧
        t.violation? Mode.wx.spelling = none ∧
        simplifyWith .standard { mode := .wx, validates := true } root = .ok t := by
    intro v root t read done
    obtain ⟨contract, result, -⟩ := simplify_meets_contract .standard .wx read
    exact ⟨read, done, contract t done, (result true).trans done⟩
  exact ⟨_, _, meets rfl rfl⟩

end MiniTemplate.Pass
