import MiniTemplate.Proofs.Json.ReadRange
import MiniTemplate.Proofs.Script.Numbers
import MiniTemplate.Proofs.Tree.Verdict
import MiniTemplate.Proofs.Tree.Written

/-!
# Generator trees that are read back

A tree is read back from its JSON form as it was iff every node of it is `Faithful`: what it
keeps as extra is apart from what it declares, and its numbers are finite. The step is a node
by itself, `Node.ofJsonWithin?_toJson_iff_parts`, and the induction goes by children and
branches. Whatever was read, if its numbers were in range, is faithful.
-/

namespace MiniTemplate

open Json (Members Keeps)
open Script (AllFinite numbersAll elementNumbers)

/-! ## Values that are read from what was written -/

namespace Json

variable {α : Type} {write : α → Json} (read : Json → Option α)

theorem mapM_map_eq_some_iff {xs : List α} :
    (xs.map write).mapM read = some xs ↔ ∀ x ∈ xs, read (write x) = some x := by
  rw [← mapM_map_eq_some_map_iff read fun x => x, List.map_id']

theorem nullable?_of_ne_null {v : Json} (solid : v ≠ .null) : nullable? read v = (read v).map some := by
  cases v with
  | null => exact (solid rfl).elim
  | bool | num | str | arr | obj => rfl

namespace Members

variable {ms : Members} {key : String}

/-- An optional member is read as it was iff its value is. -/
theorem optional?_eq_some_iff {found : Option α} (values : ms.values key = (found.map write).toList)
    (solid : ∀ x, write x ≠ .null) :
    ms.optional? key read = some found ↔ ∀ x, found = some x → read (write x) = some x := by
  rw [optional?, values]
  cases found with
  | none => simp
  | some x => simp [nullable?_of_ne_null read (solid x)]

/-- An optional list is read as it was iff its items are. -/
theorem optional?_list_eq_some_iff {found : Option (List α)}
    (values : ms.values key = (found.map fun xs => Json.arr (xs.map write)).toList) :
    ms.optional? key (list? read) = some found ↔ ∀ x ∈ found.getD [], read (write x) = some x := by
  rw [optional?_eq_some_iff (list? read) values (by simp)]
  cases found with
  | none => simp
  | some xs => simpa [list?] using mapM_map_eq_some_iff read

/-- Members that a record declares, in front of those that it keeps, do not count as extra. -/
theorem KeptBy.extras_append {declared : List String} {own extra : Members}
    (kept : extra.KeptBy declared) (known : (own.map Prod.fst).Sublist declared) :
    (own ++ extra).extras declared = extra := by
  have none : own.filter (fun m => !declared.contains m.1) = [] := by
    rw [List.filter_eq_nil_iff]
    intro m member
    have listed : m.1 ∈ declared := known.subset (List.mem_map_of_mem member)
    simpa using listed
  have all : extra.filter (fun m => !declared.contains m.1) = extra := by
    rw [List.filter_eq_self]
    intro m member
    simpa using kept.apart m member
  rw [extras, List.filter_append, none, all, List.nil_append, kept.mergedMembers_eq]

/-- What a record keeps hides no member that it declares. -/
theorem KeptBy.values_append {declared : List String} {own extra : Members} {key : String}
    (kept : extra.KeptBy declared) (known : key ∈ declared) :
    (own ++ extra).values key = own.values key := by
  rw [Members.values_append, values_of_apart kept.apart known, List.append_nil]

end Members

end Json

theorem NodeKind.ofJson?_toJson (k : NodeKind) : ofJson? k.toJson = some k := by
  cases k <;> rfl

theorem NodeKind.merged_toJson (k : NodeKind) : k.toJson.merged = k.toJson := by
  cases k <;> rfl

/-! ## Slots -/

/-- The numbers of what a slot holds. -/
def Slot.numbers : Slot → List Binary64
  | .text tree | .loop tree | .generic tree => tree.numbers
  | .classOrStyle fragments => elementNumbers fragments
  | .eventMap events => events.flatMap fun h => numbersAll h.handlers

theorem Slot.allFinite_events {events : List Handlers} :
    AllFinite (Slot.eventMap events).numbers ↔ ∀ h ∈ events, AllFinite (numbersAll h.handlers) := by
  unfold Slot.numbers AllFinite
  simp only [List.mem_flatMap]
  constructor
  · intro all h member x inside
    exact all x ⟨h, member, inside⟩
  · rintro all x ⟨h, member, inside⟩
    exact all h member x inside

theorem Handlers.written_eq_iff (h : Handlers) :
    h.written = h ↔ AllFinite (numbersAll h.handlers) := by
  rw [← Script.writtenAll_eq_iff]
  obtain ⟨event, handlers⟩ := h
  simp [written]

theorem Slot.written_eq_iff (s : Slot) : s.written = s ↔ AllFinite s.numbers := by
  cases s with
  | text tree =>
    rw [written, Slot.text.injEq]
    exact tree.written_eq_iff
  | loop tree =>
    rw [written, Slot.loop.injEq]
    exact tree.written_eq_iff
  | generic tree =>
    rw [written, Slot.generic.injEq]
    exact tree.written_eq_iff
  | classOrStyle fragments =>
    rw [written, Slot.classOrStyle.injEq]
    exact Script.writtenElements_eq_iff fragments
  | eventMap events =>
    have each : events.map Handlers.written = events.map id ↔ ∀ h ∈ events, h.written = id h :=
      List.map_inj_left
    rw [List.map_id] at each
    rw [allFinite_events, written, Slot.eventMap.injEq, each]
    exact forall₂_congr fun h _ => h.written_eq_iff

/-- **A slot is read back as it is iff its numbers are finite.** -/
theorem Slot.ofJson?_toJson_iff (s : Slot) : ofJson? s.toJson = some s ↔ AllFinite s.numbers := by
  rw [ofJson?_toJson, Option.some.injEq, written_eq_iff]

theorem Slot.toJson_ne_null (s : Slot) : s.toJson ≠ .null := by
  rw [toJson]
  intro same
  cases same

theorem Handlers.keeps_finite :
    Keeps Handlers.ofJson? fun h => AllFinite (numbersAll h.handlers) := by
  intro v h fits done
  simp only [ofJson?, Option.bind_eq_bind, Option.bind_eq_some_iff, Option.pure_def,
    Option.some.injEq] at done
  obtain ⟨ms, found, event, -, handlers, read, rfl⟩ := done
  have each := (fits.named _).members found
  exact Script.allFinite_numbersAll.2 (each.required Script.Expr.keeps_finite.list read)

theorem Slot.keeps_finite_content (kind : String) :
    Keeps (Slot.ofContent? kind) fun s => AllFinite s.numbers := by
  intro v s fits done
  unfold ofContent? at done
  have trees := Script.Expr.keeps_finite
  split at done
  · obtain ⟨tree, read, rfl⟩ := Option.map_eq_some_iff.1 done
    exact trees v tree fits read
  · obtain ⟨tree, read, rfl⟩ := Option.map_eq_some_iff.1 done
    exact trees v tree fits read
  · obtain ⟨fragments, read, rfl⟩ := Option.map_eq_some_iff.1 done
    have each := trees.nullable.list v fragments fits read
    exact Script.allFinite_elementNumbers.2 fun e member => each (some e) member e rfl
  · obtain ⟨events, read, rfl⟩ := Option.map_eq_some_iff.1 done
    exact allFinite_events.2 (Handlers.keeps_finite.list v events fits read)
  · obtain ⟨tree, read, rfl⟩ := Option.map_eq_some_iff.1 done
    exact trees v tree fits read
  · cases done

theorem Slot.keeps_finite : Keeps Slot.ofJson? fun s => AllFinite s.numbers := by
  intro v s fits done
  simp only [ofJson?, Option.bind_eq_bind, Option.bind_eq_some_iff] at done
  obtain ⟨ms, found, kind, -, read⟩ := done
  exact ((fits.named _).members found).required (keeps_finite_content kind) read

namespace Tree

/-! ## Attributes and loops -/

/-- An attribute that its JSON form keeps. -/
structure Attribute.Faithful (a : Attribute) : Prop where
  extra : a.extra.KeptBy declared
  numbers : ∀ s, a.slot = some s → AllFinite s.numbers

/-- A loop that its JSON form keeps. -/
structure Loop.Faithful (l : Loop) : Prop where
  extra : l.extra.KeptBy declared
  numbers : AllFinite l.slot.numbers

/-- **An attribute is read back as it is iff it is faithful.** -/
theorem Attribute.ofJson?_toJson_iff (a : Attribute) : ofJson? a.toJson = some a ↔ a.Faithful := by
  have slots (kept : a.extra.KeptBy declared) :
      (a.ownMembers ++ a.extra).values "__exps" = (a.slot.map Slot.toJson).toList := by
    rw [kept.values_append (by decide)]
    simp [ownMembers]
  rw [toJson_eq]
  constructor
  · intro done
    simp only [ofJson?, Json.members?, Option.bind_eq_bind, Option.bind_eq_some_iff,
      Option.pure_def, Option.some.injEq] at done
    obtain ⟨_, rfl, name, -, value, -, slot, found, same⟩ := done
    have kept : a.extra.KeptBy declared := by
      rw [← same]
      exact Members.keptBy_extras _ _
    rw [show slot = a.slot by rw [← same],
      Members.optional?_eq_some_iff _ (slots kept) Slot.toJson_ne_null] at found
    exact ⟨kept, fun s present => s.ofJson?_toJson_iff.1 (found s present)⟩
  · rintro ⟨kept, numbers⟩
    have name : (a.ownMembers ++ a.extra).values "name" = [.str a.name] := by
      rw [kept.values_append (by decide)]
      simp [ownMembers]
    have value : (a.ownMembers ++ a.extra).values "value" = (a.value.map Json.str).toList := by
      rw [kept.values_append (by decide)]
      simp [ownMembers]
    have slot := (Members.optional?_eq_some_iff _ (slots kept) Slot.toJson_ne_null).2 fun s present =>
      s.ofJson?_toJson_iff.2 (numbers s present)
    simp [ofJson?, Json.members?, Members.required?_of_values _ name, Json.string?,
      Members.optional?_string_of_values value, slot, kept.extras_append a.keys_ownMembers]

theorem Loop.toJson_ne_null (l : Loop) : l.toJson ≠ .null := by
  rw [toJson]
  intro same
  cases same

/-- **A loop is read back as it is iff it is faithful.** -/
theorem Loop.ofJson?_toJson_iff (l : Loop) : ofJson? l.toJson = some l ↔ l.Faithful := by
  have slots (kept : l.extra.KeptBy declared) :
      (l.ownMembers ++ l.extra).values "__exps" = [l.slot.toJson] := by
    rw [kept.values_append (by decide)]
    simp [ownMembers]
  rw [toJson_eq]
  constructor
  · intro done
    simp only [ofJson?, Json.members?, Option.bind_eq_bind, Option.bind_eq_some_iff,
      Option.pure_def, Option.some.injEq] at done
    obtain ⟨_, rfl, slot, found, index, -, item, -, key, -, same⟩ := done
    have kept : l.extra.KeptBy declared := by
      rw [← same]
      exact Members.keptBy_extras _ _
    rw [show slot = l.slot by rw [← same], Members.required?_of_values _ (slots kept)] at found
    exact ⟨kept, l.slot.ofJson?_toJson_iff.1 found⟩
  · rintro ⟨kept, numbers⟩
    have index : (l.ownMembers ++ l.extra).values "index" = (l.index.map Json.str).toList := by
      rw [kept.values_append (by decide)]
      simp [ownMembers]
    have item : (l.ownMembers ++ l.extra).values "item" = (l.item.map Json.str).toList := by
      rw [kept.values_append (by decide)]
      simp [ownMembers]
    have key : (l.ownMembers ++ l.extra).values "key" = (l.key.map Json.str).toList := by
      rw [kept.values_append (by decide)]
      simp [ownMembers]
    have slot := l.slot.ofJson?_toJson_iff.2 numbers
    simp [ofJson?, Json.members?, Members.required?_of_values _ (slots kept), slot,
      Members.optional?_string_of_values index, Members.optional?_string_of_values item,
      Members.optional?_string_of_values key, kept.extras_append l.keys_ownMembers]

theorem Attribute.keeps_faithful : Keeps Attribute.ofJson? Attribute.Faithful := by
  intro v a fits done
  simp only [ofJson?, Option.bind_eq_bind, Option.bind_eq_some_iff, Option.pure_def,
    Option.some.injEq] at done
  obtain ⟨ms, object, name, -, value, -, slot, read, rfl⟩ := done
  exact ⟨ms.keptBy_extras _, (fits.members object).optional Slot.keeps_finite read⟩

theorem Loop.keeps_faithful : Keeps Loop.ofJson? Loop.Faithful := by
  intro v l fits done
  simp only [ofJson?, Option.bind_eq_bind, Option.bind_eq_some_iff, Option.pure_def,
    Option.some.injEq] at done
  obtain ⟨ms, object, slot, read, index, -, item, -, key, -, rfl⟩ := done
  exact ⟨ms.keptBy_extras _, (fits.members object).required Slot.keeps_finite read⟩

/-! ## Conditions and nodes -/

namespace Node

/-- **A node that its JSON form keeps**, with its attributes, its loop and the expressions of
its conditions, and without the nodes below it. -/
structure Faithful (n : Node) : Prop where
  extra : n.extra.KeptBy declared
  numbers : ∀ s, n.slot = some s → AllFinite s.numbers
  attributes : ∀ a ∈ n.attributeList, a.Faithful
  loop : ∀ l, n.loop = some l → l.Faithful
  conditions : ∀ c ∈ n.conditionList, ∀ e, c.expression = some e → e.Finite

/-- The JSON form of a node is not taken for the name of the node above. -/
theorem name?_toJson (n : Node) : n.toJson.name? = none := by
  rw [toJson_eq, ownMembers]
  cases n.kind <;> rfl

theorem targetOfJson?_targetJson_iff {read : Json → Option Node} (t : Target Node) :
    targetOfJson? read (targetJson t) = some t ↔ ∀ b, t = .block b → read b.toJson = some b := by
  cases t with
  | anchor => simp [targetJson, targetOfJson?, Json.name?]
  | block node => simp [targetJson, targetOfJson?, name?_toJson]

theorem conditionOfJson?_conditionJson_iff {read : Json → Option Node} (c : Condition Node) :
    conditionOfJson? read (conditionJson c) = some c ↔
      (∀ e, c.expression = some e → e.Finite) ∧
        ∀ b, c.target = .block b → read b.toJson = some b := by
  obtain ⟨isExpression, target, expression⟩ := c
  have trees : Json.nullable? Script.Expr.ofJson? (Json.orNull Script.Expr.toJson expression)
      = some expression ↔ ∀ e, expression = some e → e.Finite := by
    cases expression with
    | none => simp [Json.orNull, Json.nullable?]
    | some e =>
      simp [Json.orNull, Script.nullable?_toJson, e.ofJson?_toJson, e.written_eq_iff]
  rw [← trees, ← targetOfJson?_targetJson_iff]
  simp [conditionOfJson?, conditionJson, Json.named, Json.members?, Members.required?,
    Members.optional?, Json.bool?, Option.bind_eq_some_iff, and_comm]

/-- A node that keeps its extra members apart is read back as it is iff each of its members
is. -/
theorem ofJsonWithin?_toJson_iff_members {n : Node} (kept : n.extra.KeptBy declared) (bound : Nat) :
    ofJsonWithin? (bound + 1) n.toJson = some n ↔
      (∀ a ∈ n.attributeList, Attribute.ofJson? a.toJson = some a) ∧
      (∀ s, n.slot = some s → Slot.ofJson? s.toJson = some s) ∧
      (∀ c ∈ n.conditionList,
        conditionOfJson? (ofJsonWithin? bound) (conditionJson c) = some c) ∧
      (∀ l, n.loop = some l → Loop.ofJson? l.toJson = some l) ∧
      ∀ c ∈ n.childList, ofJsonWithin? bound c.toJson = some c := by
  have values {key : String} (known : key ∈ declared) :
      (n.ownMembers ++ n.extra).values key = n.ownMembers.values key := kept.values_append known
  have kind := Members.required?_of_values NodeKind.ofJson? ((values (by decide)).trans n.values_kind)
  have tag := Members.optional?_string_of_values ((values (by decide)).trans n.values_tag)
  have text := Members.optional?_string_of_values ((values (by decide)).trans n.values_text)
  have extra := kept.extras_append n.keys_ownMembers
  have attributes := Members.optional?_list_eq_some_iff Attribute.ofJson?
    ((values (by decide)).trans n.values_attributes)
  have slot := Members.optional?_eq_some_iff Slot.ofJson?
    ((values (by decide)).trans n.values_slot) Slot.toJson_ne_null
  have conditions := Members.optional?_list_eq_some_iff (conditionOfJson? (ofJsonWithin? bound))
    ((values (by decide)).trans n.values_conditions)
  have loop := Members.optional?_eq_some_iff Loop.ofJson?
    ((values (by decide)).trans n.values_loop) Loop.toJson_ne_null
  have children := Members.optional?_list_eq_some_iff (ofJsonWithin? bound)
    ((values (by decide)).trans n.values_children)
  rw [attributeList, conditionList, childList, ← attributes, ← slot, ← conditions, ← loop, ← children,
    toJson_eq]
  simp only [ofJsonWithin?, Json.members?, Option.bind_eq_bind, Option.bind_eq_some_iff,
    Option.pure_def, Option.some.injEq]
  constructor
  · rintro ⟨_, rfl, _, -, _, -, _, -, as, readAs, x, readX, cs, readCs, l, readL, ns, readNs, same⟩
    obtain rfl : as = n.attributes := congrArg Node.attributes same
    obtain rfl : x = n.slot := congrArg Node.slot same
    obtain rfl : cs = n.conditions := congrArg Node.conditions same
    obtain rfl : l = n.loop := congrArg Node.loop same
    obtain rfl : ns = n.children := congrArg Node.children same
    exact ⟨readAs, readX, readCs, readL, readNs⟩
  · rintro ⟨readAs, readX, readCs, readL, readNs⟩
    have same : { n with extra := (n.ownMembers ++ n.extra).extras declared } = n := by
      rw [extra]
      cases n
      rfl
    exact ⟨_, rfl, _, kind.trans (n.kind.ofJson?_toJson), _, tag, _, text, _, readAs, _, readX, _,
      readCs, _, readL, _, readNs, same⟩

/-- **The step**: a node is read back as it is iff it is faithful and each node right below it,
child or branch, is read back. -/
theorem ofJsonWithin?_toJson_iff_parts (n : Node) (bound : Nat) :
    ofJsonWithin? (bound + 1) n.toJson = some n ↔
      n.Faithful ∧ (∀ c ∈ n.childList, ofJsonWithin? bound c.toJson = some c) ∧
        ∀ c ∈ n.conditionList, ∀ b, c.target = .block b → ofJsonWithin? bound b.toJson = some b := by
  constructor
  · intro done
    have kept : n.extra.KeptBy declared := by
      simp only [ofJsonWithin?, Option.bind_eq_bind, Option.bind_eq_some_iff, Option.pure_def,
        Option.some.injEq] at done
      obtain ⟨ms, -, _, -, _, -, _, -, _, -, _, -, _, -, _, -, _, -, same⟩ := done
      rw [← same]
      exact ms.keptBy_extras declared
    obtain ⟨attributes, slot, conditions, loop, children⟩ :=
      (ofJsonWithin?_toJson_iff_members kept bound).1 done
    refine ⟨⟨kept, ?_, ?_, ?_, ?_⟩, children, ?_⟩
    · intro s present
      exact s.ofJson?_toJson_iff.1 (slot s present)
    · intro a member
      exact a.ofJson?_toJson_iff.1 (attributes a member)
    · intro l present
      exact l.ofJson?_toJson_iff.1 (loop l present)
    · intro c member
      exact ((conditionOfJson?_conditionJson_iff c).1 (conditions c member)).1
    · intro c member
      exact ((conditionOfJson?_conditionJson_iff c).1 (conditions c member)).2
  · rintro ⟨⟨kept, numbers, attributes, loop, expressions⟩, children, branches⟩
    rw [ofJsonWithin?_toJson_iff_members kept]
    refine ⟨?_, ?_, ?_, ?_, children⟩
    · intro a member
      exact a.ofJson?_toJson_iff.2 (attributes a member)
    · intro s present
      exact s.ofJson?_toJson_iff.2 (numbers s present)
    · intro c member
      exact (conditionOfJson?_conditionJson_iff c).2 ⟨expressions c member, branches c member⟩
    · intro l present
      exact l.ofJson?_toJson_iff.2 (loop l present)

/-! ## Trees -/

/-- What holds of every node of a tree, by its root and the trees below it. -/
theorem forall_reaches_iff {P : Node → Prop} {root : Node} :
    (∀ n, Reaches root n → P n) ↔
      P root ∧ (∀ c ∈ root.childList, ∀ n, Reaches c n → P n) ∧
        ∀ c ∈ root.conditionList, ∀ b, c.target = .block b → ∀ n, Reaches b n → P n := by
  constructor
  · intro all
    refine ⟨all root .root, ?_, ?_⟩
    · intro c member n below
      exact all n (Reaches.trans (.child .root member) below)
    · intro c member b target n below
      exact all n (Reaches.trans (.branch .root member target) below)
  · rintro ⟨own, children, branches⟩ n reached
    -- The first step of the way decides which of the trees below holds the node.
    have first : n = root ∨ (∃ c ∈ root.childList, Reaches c n) ∨
        ∃ c ∈ root.conditionList, ∃ b, c.target = .block b ∧ Reaches b n := by
      induction reached with
      | root => exact .inl rfl
      | child above member ih =>
        rcases ih with rfl | ⟨c, below, inside⟩ | ⟨c, below, b, target, inside⟩
        · exact .inr (.inl ⟨_, member, .root⟩)
        · exact .inr (.inl ⟨c, below, .child inside member⟩)
        · exact .inr (.inr ⟨c, below, b, target, .child inside member⟩)
      | branch above member goal ih =>
        rcases ih with rfl | ⟨c, below, inside⟩ | ⟨c, below, b, target, inside⟩
        · exact .inr (.inr ⟨_, member, _, goal, .root⟩)
        · exact .inr (.inl ⟨c, below, .branch inside member goal⟩)
        · exact .inr (.inr ⟨c, below, b, target, .branch inside member goal⟩)
    rcases first with rfl | ⟨c, member, below⟩ | ⟨c, member, b, target, below⟩
    · exact own
    · exact children c member n below
    · exact branches c member b target n below

theorem depth_lt_of_mem_ownMembers {n : Node} {m : String × Json} (member : m ∈ n.ownMembers) :
    m.2.depth < n.toJson.depth := by
  rw [toJson_eq, Json.depth]
  have within := Json.depth_le_depthMembers (List.mem_append_left n.extra member)
  omega

theorem depth_child_lt {n c : Node} (child : c ∈ n.childList) : c.toJson.depth < n.toJson.depth := by
  cases present : n.children with
  | none => simp [childList, present] at child
  | some nodes =>
    have inside : c ∈ nodes := by simpa [childList, present] using child
    have member : ("children", Json.arr (nodes.map toJson)) ∈ n.ownMembers := by
      simp [ownMembers, present, Json.member]
    have outer := depth_lt_of_mem_ownMembers member
    have inner := Json.depth_le_depthItems (List.mem_map_of_mem (f := toJson) inside)
    rw [Json.depth] at outer
    omega

theorem depth_branch_lt {n b : Node} {c : Condition Node} (member : c ∈ n.conditionList)
    (target : c.target = .block b) : b.toJson.depth < n.toJson.depth := by
  cases present : n.conditions with
  | none => simp [conditionList, present] at member
  | some conditions =>
    have inside : c ∈ conditions := by simpa [conditionList, present] using member
    have listed : ("ifConditions", Json.arr (conditions.map conditionJson)) ∈ n.ownMembers := by
      simp [ownMembers, present, Json.member, conditionJsons_eq_map]
    have outer := depth_lt_of_mem_ownMembers listed
    have middle := Json.depth_le_depthItems (List.mem_map_of_mem (f := conditionJson) inside)
    have inner : b.toJson.depth < (conditionJson c).depth := by
      rw [conditionJson, Json.depth, target]
      have within := Json.depth_le_depthMembers
        (show ("target", targetJson (.block b)) ∈ [("isExpression", Json.bool c.isExpression),
          ("target", targetJson (.block b)), ("expression", Json.orNull Script.Expr.toJson c.expression)]
          by simp)
      rw [targetJson] at within
      exact Nat.lt_succ_of_le within
    rw [Json.depth] at outer
    omega

theorem ofJsonWithin?_toJson_iff (n : Node) {bound : Nat} (deep : n.toJson.depth < bound) :
    ofJsonWithin? bound n.toJson = some n ↔ ∀ m, Reaches n m → m.Faithful := by
  induction n using induction_on_parts generalizing bound with
  | step n children branches =>
    obtain ⟨bound, rfl⟩ : ∃ b, bound = b + 1 := ⟨bound - 1, by omega⟩
    rw [ofJsonWithin?_toJson_iff_parts, forall_reaches_iff]
    refine and_congr_right fun _ => and_congr ?_ ?_
    · refine forall₂_congr fun c member => children c member ?_
      have smaller := depth_child_lt member
      omega
    · refine forall₂_congr fun c member => forall₂_congr fun b target => branches c member b target ?_
      have smaller := depth_branch_lt member target
      omega

/-- **A tree is read back as it is iff all its nodes are faithful.** -/
theorem ofJson?_toJson_iff (n : Node) :
    ofJson? n.toJson = some n ↔ ∀ m, Reaches n m → m.Faithful :=
  n.ofJsonWithin?_toJson_iff (Nat.lt_succ_self _)

/-! ## Trees that repeat no member -/

theorem merged_conditionJson {c : Condition Node}
    (branch : ∀ b, c.target = .block b → b.toJson.merged = b.toJson) :
    (conditionJson c).merged = conditionJson c := by
  have target : (targetJson c.target).merged = targetJson c.target := by
    cases found : c.target with
    | anchor => rfl
    | block b => exact branch b found
  have expression : (Json.orNull Script.Expr.toJson c.expression).merged
      = Json.orNull Script.Expr.toJson c.expression := by
    cases c.expression with
    | none => rfl
    | some e => exact e.merged_toJson
  rw [conditionJson, Json.merged_obj (by simp)]
  simp [target, expression, Json.merged]

/-- The JSON form of a faithful node repeats no member if those of the nodes right below do not. -/
theorem Faithful.merged_toJson {n : Node} (faithful : n.Faithful)
    (children : ∀ c ∈ n.childList, c.toJson.merged = c.toJson)
    (branches : ∀ c ∈ n.conditionList, ∀ b, c.target = .block b → b.toJson.merged = b.toJson) :
    n.toJson.merged = n.toJson := by
  have attributes : ∀ as, n.attributes = some as → (Json.arr (as.map Attribute.toJson)).merged
      = .arr (as.map Attribute.toJson) := by
    intro as present
    apply Json.merged_arr_map
    intro a member
    apply Attribute.merged_toJson (faithful.attributes a ?_).extra (List.Subset.refl _)
    simpa [attributeList, present] using member
  have conditions : ∀ cs, n.conditions = some cs → (Json.arr (conditionJsons cs)).merged
      = .arr (conditionJsons cs) := by
    intro cs present
    rw [conditionJsons_eq_map]
    apply Json.merged_arr_map
    intro c member
    apply merged_conditionJson
    apply branches c
    simpa [conditionList, present] using member
  have below : ∀ ns, n.children = some ns → (Json.arr (ns.map toJson)).merged = .arr (ns.map toJson) := by
    intro ns present
    apply Json.merged_arr_map
    intro c member
    apply children c
    simpa [childList, present] using member
  have loop : ∀ l, n.loop = some l → l.toJson.merged = l.toJson := by
    intro l present
    exact Loop.merged_toJson (faithful.loop l present).extra
  have once := nodup_keys faithful.extra (List.Subset.refl _)
  rw [toJson_eq, Json.merged_obj once, List.map_append, faithful.extra.map_eq]
  simp only [ownMembers, List.map_cons, List.map_append, Json.map_merged_member,
    NodeKind.merged_toJson, Slot.merged_toJson, Json.member_congr attributes, Json.member_congr conditions,
    Json.member_congr loop, Json.member_congr below]
  rfl

theorem merged_toJson_of_faithful (n : Node) (faithful : ∀ m, Reaches n m → m.Faithful) :
    n.toJson.merged = n.toJson := by
  induction n using induction_on_parts with
  | step n children branches =>
    obtain ⟨own, below, beside⟩ := forall_reaches_iff.1 faithful
    apply own.merged_toJson
    · intro c member
      exact children c member (below c member)
    · intro c member b target
      exact branches c member b target (beside c member b target)

/-- **The JSON form of a tree that is read back repeats no member.** -/
theorem distinct_toJson {n : Node} (faithful : ∀ m, Reaches n m → m.Faithful) : n.toJson.Distinct :=
  Json.distinct_of_merged _ (n.merged_toJson_of_faithful faithful)

/-! ## Trees that were read -/

section
variable {read : Json → Option Node} {P : Node → Prop} (keeps : Keeps read P)
include keeps

theorem keeps_target : Keeps (targetOfJson? read) fun t => ∀ b, t = .block b → P b := by
  rintro v t fits done b rfl
  unfold targetOfJson? at done
  split at done
  · cases done
  · obtain ⟨_, found, same⟩ := Option.map_eq_some_iff.1 done
    cases same
    exact keeps v b fits found

theorem keeps_condition : Keeps (conditionOfJson? read) fun c =>
    (∀ e, c.expression = some e → e.Finite) ∧ ∀ b, c.target = .block b → P b := by
  intro v c fits done
  simp only [conditionOfJson?, Option.bind_eq_bind, Option.bind_eq_some_iff, Option.pure_def,
    Option.some.injEq] at done
  obtain ⟨ms, object, isExpression, -, target, readTarget, expression, readTree, rfl⟩ := done
  have each := (fits.named _).members object
  exact ⟨each.optional Script.Expr.keeps_finite readTree,
    each.required (keeps_target keeps) readTarget⟩

end

/-- **Whatever was read is faithful**, if its numbers were in range. -/
theorem keeps_faithfulWithin (depth : Nat) :
    Keeps (ofJsonWithin? depth) fun n => ∀ m, Reaches n m → m.Faithful := by
  induction depth with
  | zero =>
    intro v n _ done
    cases done
  | succ depth ih =>
    intro v n fits done
    simp only [ofJsonWithin?, Option.bind_eq_bind, Option.bind_eq_some_iff, Option.pure_def,
      Option.some.injEq] at done
    obtain ⟨ms, object, kind, -, tag, -, text, -, attributes, readAttributes, slot, readSlot,
      conditions, readConditions, loop, readLoop, children, readChildren, rfl⟩ := done
    have each := fits.members object
    have branches := each.optionalList (keeps_condition ih) readConditions
    rw [forall_reaches_iff]
    refine ⟨⟨ms.keptBy_extras _, each.optional Slot.keeps_finite readSlot,
      each.optionalList Attribute.keeps_faithful readAttributes,
      each.optional Loop.keeps_faithful readLoop, ?_⟩, each.optionalList ih readChildren, ?_⟩
    · intro c member
      exact (branches c member).1
    · intro c member
      exact (branches c member).2

/-- **Reading undoes writing**, for exactly those trees that keep extra members apart from
declared ones and have finite numbers. Every tree that was read is one of them, so writing it
and reading it again changes nothing: JSON values have their numbers in range, as has the value of
every text. -/
theorem reading_undoes_writing :
    (∀ n : Node, ofJson? n.toJson = some n ↔ ∀ m, Reaches n m → m.Faithful) ∧
    (∀ (v : Json) (n : Node), v.InRange → ofJson? v = some n →
      (∀ m, Reaches n m → m.Faithful) ∧ ofJson? n.toJson = some n) ∧
    ∀ (depth : Nat) (text : String) (v : Json) (rest : List Char),
      Json.read depth text = .done v rest → v.InRange := by
  refine ⟨ofJson?_toJson_iff, ?_, fun _ _ _ _ => Json.inRange_of_read⟩
  intro v n fits done
  have faithful := keeps_faithfulWithin (v.depth + 1) v n fits done
  exact ⟨faithful, n.ofJson?_toJson_iff.2 faithful⟩

/-- A branch without a condition of its own, and with an empty list of children. -/
def barren : Node := { kind := .text, children := some [] }

/-- A node in which `null` stands for a fragment, a hole, a literal and a condition. -/
def assorted : Node where
  kind := .element
  attributes := some [{ name := "class", slot := some (.classOrStyle
    [none, some (.array [none, some (.literal .null), some (.literal (.number (.ofInt 7)))])]) }]
  conditions := some [{ isExpression := true, target := .anchor, expression := some (.identifier "a") },
    { isExpression := false, target := .block barren, expression := none }]
  extra := [("note", .arr [.obj [("k", .num (.int 2))], .obj []]), ("a", .null)]

/-- A JSON form of the node that is not the one it is written as: one member repeats, one
condition is an array, and a number is an integer. -/
def assortedJson : Json :=
  .obj [("note", .bool true), ("type", .num (.int 1)), ("text", .null),
    ("ifConditions", .arr [.obj [("expression", .obj [("name", .str "a"), ("type", .str "Identifier")]),
      ("isExpression", .bool true), ("target", .str "self")],
      .arr [.bool false, .obj [("children", .arr []), ("type", .num (.int 3))], .null]]),
    ("a", .null), ("note", .arr [.obj [("k", .num (.int 1)), ("k", .num (.int 2))], .obj []]),
    ("attrsList", .arr [.obj [("name", .str "class"), ("__exps", .obj [("kind", .str "classOrStyle"),
      ("value", .arr [.null, .arr [.str "Array", .arr [.null, .arr [.str "Literal", .null],
        .obj [("type", .str "Literal"), ("value", .num (.int 7))]]]])])]])]

theorem assorted_reads_back :
    ofJson? assortedJson = some assorted ∧ ofJson? assorted.toJson = some assorted := by
  have fits : assortedJson.InRange := by
    simp [assortedJson, Json.Number.InRange]
  have read : ofJson? assortedJson = some assorted := rfl
  exact ⟨read, (reading_undoes_writing.2.1 assortedJson assorted fits read).2⟩

end Node

end Tree

end MiniTemplate
