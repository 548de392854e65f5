import MiniTemplate.Pass.Bridge
import MiniTemplate.Proofs.Pass.Spent
import MiniTemplate.Proofs.Tree.RoundTrip

/-!
# What the pass emits

A result is written with the members that its nodes declare and then with those that the pass
passes through. The pass takes members over by what a markup node does not declare, and a node
of a result declares two names more, `__exps` and `ifConditions`, as its loop does with `__exps`.
Where such a name is passed through, or a number is not finite, the text that is emitted is not
one that the result can be read from; in all other cases it is, which is
`emitted_reads_back_iff_lossless`.
-/

namespace MiniTemplate

open Json (Members)
open Script (AllFinite)

/-! ## What is passed through -/

namespace Pass

open Markup (Node)
open Script (Expr)

variable {f : Frontend} {s : Spelling}

/-- A node of a result that keeps, with its attributes and its loop, what those of a markup tree
may keep. -/
structure Inherits (t : Tree.Node) : Prop where
  extra : t.extra.KeptBy Node.declared
  attributes : ∀ a ∈ t.attributeList, a.extra.KeptBy Markup.Attribute.declared
  loop : ∀ l, t.loop = some l → l.extra.KeptBy Markup.Loop.declared

theorem Inherits.anchored {e : Expr} {t : Tree.Node} {branches : List (Tree.Condition Tree.Node)}
    (own : Inherits t) : Inherits (anchored e t branches) := ⟨own.extra, own.attributes, own.loop⟩

theorem inherits_of_simplified {n : Node} {t : Tree.Node} (extra : n.extra.KeptBy Node.declared)
    (attributes : ∀ a ∈ n.attributeList, a.extra.KeptBy Markup.Attribute.declared)
    (loop : ∀ l, n.loop = some l → l.extra.KeptBy Markup.Loop.declared) (h : Simplified f s n t) :
    Inherits t := by
  constructor
  · rw [h.extra]
    exact ⟨extra.toSettled.filter _, fun m member => extra.apart m (List.mem_filter.1 member).1⟩
  · have list := h.attributes
    simp only [simplifyAttributes, Trace.bind_ok_iff, Trace.pure_result, Except.ok.injEq] at list
    obtain ⟨simplified, list, same⟩ := list
    rw [Tree.Node.attributeList, ← same, unlessEmpty_getD]
    intro a member
    exact (spent_of_simplifyAttributeList attributes list a member).extra
  · intro l found
    obtain ⟨directive, source, same⟩ := simplifyLoop?_extra h.loop found
    rw [same]
    exact loop directive source

/-- The trees below the start of a chain: its children, and its branches. -/
theorem forall_reaches_anchored {P : Tree.Node → Prop} {e : Expr} {t : Tree.Node}
    {branches : List (Tree.Condition Tree.Node)} (own : P (anchored e t branches))
    (children : ∀ c ∈ t.childList, ∀ m, c.Reaches m → P m)
    (folded : ∀ c ∈ branches, ∀ b, c.target = .block b → ∀ m, b.Reaches m → P m) :
    ∀ m, (anchored e t branches).Reaches m → P m := by
  rw [Tree.Node.forall_reaches_iff]
  refine ⟨own, children, ?_⟩
  intro c member b target
  rcases List.mem_cons.1 member with rfl | member
  · cases target
  · exact folded c member b target

/-- **Every node of a result keeps what a markup node may keep**, at any depth and in branches. -/
theorem inherits_of_wellKept {n : Node} {t : Tree.Node} (kept : n.WellKept) (h : Simplified f s n t) :
    ∀ m, t.Reaches m → Inherits m := by
  induction kept generalizing t with
  | @mk n own attributes loop below ih =>
    have bare : t.conditionList = [] := by rw [Tree.Node.conditionList, h.conditions]; rfl
    rw [Tree.Node.forall_reaches_iff]
    refine ⟨inherits_of_simplified own attributes loop h, ?_, ?_⟩
    · intro k child
      cases h.kept k child with
      | plain member node => exact ih _ member node
      | anchored member node folded =>
        have whole := ih _ member node
        apply forall_reaches_anchored (whole _ .root).anchored
        · intro c inside m reached
          exact whole m (Tree.Node.Reaches.trans (.child .root inside) reached)
        · intro c inside b target
          obtain ⟨m, member, g, block, node, rfl⟩ := folded c inside
          cases target
          exact ih m member node
    · intro c member
      rw [bare] at member
      cases member

theorem inherits_of_simplifyRoot {root : Node} {t : Tree.Node} (kept : root.WellKept)
    (done : (simplifyRoot f s root).result = .ok t) : ∀ m, t.Reaches m → Inherits m := by
  unfold simplifyRoot at done
  split at done
  · simp only [Trace.bind_ok_iff, Trace.pure_result, Except.ok.injEq, simplifyNode_ok_iff] at done
    obtain ⟨e, -, node, h, rfl⟩ := done
    have whole := inherits_of_wellKept kept h
    apply forall_reaches_anchored (whole _ .root).anchored
    · intro c inside m reached
      exact whole m (Tree.Node.Reaches.trans (.child .root inside) reached)
    · intro c member
      cases member
  · exact inherits_of_wellKept kept (simplifyNode_ok_iff.1 done)

/-! ## What is emitted -/

/-- The slots of a node by itself: its own, those of its attributes, and that of its loop. -/
def slots (t : Tree.Node) : List Slot :=
  t.slot.toList ++ (t.attributeList.filterMap Tree.Attribute.slot ++ (t.loop.map Tree.Loop.slot).toList)

/-- **A node that can be told from its JSON form**: nothing that it or its loop has passed
through has the name of a member that results add to those of markup, and its numbers are
finite. -/
structure Lossless (t : Tree.Node) : Prop where
  extra : ∀ m ∈ t.extra, m.1 ≠ "__exps" ∧ m.1 ≠ "ifConditions"
  loop : ∀ l, t.loop = some l → ∀ m ∈ l.extra, m.1 ≠ "__exps"
  slots : ∀ s ∈ slots t, AllFinite s.numbers
  conditions : ∀ c ∈ t.conditionList, ∀ e, c.expression = some e → e.Finite

theorem Inherits.faithful_iff_lossless {t : Tree.Node} (own : Inherits t) :
    t.Faithful ↔ Lossless t := by
  -- Nodes of results declare two names that markup does not, their loops one, attributes none. These
  -- names are all that a member passed through can clash with.
  have known : ∀ name ∈ Tree.Node.declared,
      name ∈ Node.declared ∨ name = "__exps" ∨ name = "ifConditions" := by decide
  have loopNames : ∀ name ∈ Tree.Loop.declared, name ∈ Markup.Loop.declared ∨ name = "__exps" := by
    decide
  have attributeNames : ∀ name ∈ Tree.Attribute.declared, name ∈ Markup.Attribute.declared := by
    decide
  constructor
  · intro faithful
    refine ⟨?_, ?_, ?_, faithful.conditions⟩
    · intro m member
      constructor
      · intro same
        exact faithful.extra.apart m member (by rw [same]; decide)
      · intro same
        exact faithful.extra.apart m member (by rw [same]; decide)
    · intro l present m member same
      exact (faithful.loop l present).extra.apart m member (by rw [same]; decide)
    · intro s member
      rcases List.mem_append.1 member with member | member
      · exact faithful.numbers s (Option.mem_toList.1 member)
      · rcases List.mem_append.1 member with member | member
        · obtain ⟨a, inside, present⟩ := List.mem_filterMap.1 member
          exact (faithful.attributes a inside).numbers s present
        · obtain ⟨l, present, rfl⟩ := Option.map_eq_some_iff.1 (Option.mem_toList.1 member)
          exact (faithful.loop l present).numbers
  · intro lossless
    refine ⟨⟨own.extra.toSettled, ?_⟩, ?_, ?_, ?_, lossless.conditions⟩
    · intro m member declared
      rcases known m.1 declared with declared | same | same
      · exact own.extra.apart m member declared
      · exact (lossless.extra m member).1 same
      · exact (lossless.extra m member).2 same
    · intro s present
      apply lossless.slots s
      simp [Pass.slots, present]
    · intro a member
      have kept := own.attributes a member
      refine ⟨⟨kept.toSettled, fun m inside declared => ?_⟩, ?_⟩
      · exact kept.apart m inside (attributeNames m.1 declared)
      · intro s present
        apply lossless.slots s
        apply List.mem_append_right
        apply List.mem_append_left
        exact List.mem_filterMap.2 ⟨a, member, present⟩
    · intro l present
      have kept := own.loop l present
      refine ⟨⟨kept.toSettled, fun m inside declared => ?_⟩, ?_⟩
      · rcases loopNames m.1 declared with declared | same
        · exact kept.apart m inside declared
        · exact lossless.loop l present m inside same
      · apply lossless.slots l.slot
        simp [Pass.slots, present]

/-- A tree that was read from text was read from a value. -/
theorem exists_of_readText {text : String} {root : Node} (read : Node.readText text = .ok root) :
    ∃ v, Node.ofJson? v = some root := by
  unfold Node.readText at read
  split at read
  · rename_i v _ _
    unfold Node.read at read
    split at read
    · rename_i n found
      cases read
      exact ⟨v, found⟩
    · cases read
  · cases read

/-- What is emitted is the text of what the pass makes of the tree and the options that were
read. -/
theorem simplifyJson_ok {tree options out : String} (done : simplifyJson tree options = .ok out) :
    ∃ root given t, Node.readText tree = .ok root ∧ Options.readText? options = some given ∧
      simplify given root = .ok t ∧ out = t.toJson.text := by
  unfold simplifyJson at done
  cases read : Node.readText tree with
  | error fault =>
    rw [read] at done
    cases done
  | ok root =>
    cases options : Options.readText? options with
    | none =>
      rw [read, options] at done
      cases done
    | some given =>
      cases result : simplify given root with
      | error e =>
        rw [read, options] at done
        simp only [Except.mapError, Bind.bind, Except.bind, Pure.pure, Except.pure, result] at done
        cases done
      | ok t =>
        rw [read, options] at done
        simp only [Except.mapError, Bind.bind, Except.bind, Pure.pure, Except.pure, result,
          Except.ok.injEq] at done
        exact ⟨root, given, t, rfl, rfl, result, done.symm⟩

/-- **What is emitted is what is read**, for exactly those results all of whose nodes can be told
from their JSON form: then no object of the text repeats a member, and the value of the text is
read as the result itself. The result meets the contract in any case. -/
theorem emitted_reads_back_iff_lossless {tree options out : String}
    (done : simplifyJson tree options = .ok out) :
    ∃ root given t, Node.readText tree = .ok root ∧ Options.readText? options = some given ∧
      simplify given root = .ok t ∧ out = t.toJson.text ∧
      t.violation? given.mode.spelling = none ∧
      ((t.toJson.Distinct ∧ Tree.Node.ofJson? t.toJson = some t) ↔ ∀ m, t.Reaches m → Lossless m) := by
  obtain ⟨root, given, t, read, asked, result, text⟩ := simplifyJson_ok done
  refine ⟨root, given, t, read, asked, result, text, ?_⟩
  obtain ⟨v, found⟩ := exists_of_readText read
  have kept := Node.wellKept_of_ofJson? found
  rw [simplify, simplifyWith_eq_of_apart kept.apart] at result
  have inherits := inherits_of_simplifyRoot kept result
  have lossless : (∀ m, t.Reaches m → m.Faithful) ↔ ∀ m, t.Reaches m → Lossless m :=
    forall₂_congr fun m reached => (inherits m reached).faithful_iff_lossless
  refine ⟨Tree.Node.violation?_eq_none_iff.2 (breaches_of_simplifyRoot kept.apart result), ?_⟩
  rw [← lossless, ← t.ofJson?_toJson_iff]
  constructor
  · rintro ⟨-, back⟩
    exact back
  · intro back
    exact ⟨Tree.Node.distinct_toJson (t.ofJson?_toJson_iff.1 back), back⟩

/-- A member that is passed through keeps the name `__exps` where it is not one of the node. -/
theorem nested_name_reads_back_iff :
    ∃ root given t,
      Node.readText "\x7b\"type\":3,\"text\":\"\x7b\x7ba\x7d\x7d\",\"note\":\x7b\"__exps\":1\x7d\x7d" = .ok root ∧
      Options.readText? "\x7b\"mode\":\"swan\"\x7d" = some given ∧ simplify given root = .ok t ∧
      "\x7b\"type\":3,\"__exps\":\x7b\"kind\":\"text\",\"value\":\x7b\"type\":\"Identifier\",\"name\":\"a\"\x7d\x7d,\"note\":\x7b\"__exps\":1\x7d\x7d"
        = t.toJson.text ∧
      t.violation? given.mode.spelling = none ∧
      ((t.toJson.Distinct ∧ Tree.Node.ofJson? t.toJson = some t) ↔ ∀ m, t.Reaches m → Lossless m) :=
  emitted_reads_back_iff_lossless (ok_of_toOption (by decide +kernel))

/-- The value of the text that is emitted for a text node with a member `__exps`. -/
def clash : Json :=
  .obj [("type", .num (.int 3)), ("__exps", (Slot.text (.identifier "a")).toJson),
    ("__exps", .num (.int 1))]

/-- **A member `__exps` that is passed through is emitted beside the slot of the node**, and no
tree can be read from that. -/
theorem passed_slot_is_repeated :
    simplifyJson "\x7b\"type\":3,\"text\":\"\x7b\x7ba\x7d\x7d\",\"__exps\":1\x7d" "\x7b\"mode\":\"wx\"\x7d" = .ok clash.text ∧
      ¬ clash.Distinct ∧ Tree.Node.ofJson? clash = none := by
  refine ⟨ok_of_toOption (by decide +kernel), ?_, rfl⟩
  intro distinct
  cases distinct with
  | obj once => simp at once

end Pass

end MiniTemplate
