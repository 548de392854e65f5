import MiniTemplate.Proofs.Markup.Apart
import MiniTemplate.Proofs.Tree.RoundTrip

/-!
# Markup trees that are read back

What a markup tree is read back as: itself, with the attributes by name in the order of their
names. This holds of exactly the `Faithful` trees: their maps hold each name once, what they keep
as extra is apart from what they declare, and the numbers of their expressions are finite.
Whatever was read is faithful. `Node.reading_loses_nothing` also says where each member of an
object goes that the reader does not declare.
-/

namespace MiniTemplate

open Json (Members Keeps)
open Script (AllFinite)

/-! ## Values that are read from what was written -/

namespace Json

variable {α β : Type}

namespace Members

variable {ms : Members} {key : String} {write : α → Json} (read : Json → Option β) (back : α → β)

/-- A member that is written as `null` if it is absent is read as it should be iff its value is. -/
theorem optional?_orNull_iff {found : Option α} (values : ms.values key = [orNull write found])
    (solid : ∀ x, write x ≠ .null) :
    ms.optional? key read = some (found.map back) ↔
      ∀ x, found = some x → read (write x) = some (back x) := by
  rw [optional?_of_single read values]
  cases found with
  | none => simp [orNull, nullable?]
  | some x => simp [orNull, nullable?_of_ne_null read (solid x)]

theorem optional?_orNull_same_iff {found : Option α} (read : Json → Option α)
    (values : ms.values key = [orNull write found]) (solid : ∀ x, write x ≠ .null) :
    ms.optional? key read = some found ↔ ∀ x, found = some x → read (write x) = some x := by
  rw [← optional?_orNull_iff read (fun x => x) values solid, Option.map_id']

theorem optional?_orNull_list_iff {found : Option (List α)}
    (values : ms.values key = [orNull (fun xs => Json.arr (xs.map write)) found]) :
    ms.optional? key (list? read) = some (found.map (List.map back)) ↔
      ∀ x ∈ found.getD [], read (write x) = some (back x) := by
  rw [optional?_orNull_iff (list? read) (List.map back) values (by simp)]
  cases found with
  | none => simp
  | some xs => simpa [list?] using mapM_map_eq_some_map_iff read back

/-- A member that a record declares is read as it was, whatever the record keeps. -/
theorem KeptBy.optional?_written {declared : List String} {own extra : Members} {key : String}
    {read : Json → Option α} {found : Option α} (kept : extra.KeptBy declared) (known : key ∈ declared)
    (written : own.values key = [orNull write found]) (solid : ∀ x, write x ≠ .null)
    (reads : ∀ x, read (write x) = some x) : (own ++ extra).optional? key read = some found :=
  (optional?_orNull_same_iff read ((kept.values_append known).trans written) solid).2
    fun x _ => reads x

theorem KeptBy.optional?_text {declared : List String} {own extra : Members} {key : String}
    {found : Option String} (kept : extra.KeptBy declared) (known : key ∈ declared)
    (written : own.values key = [orNull .str found]) :
    (own ++ extra).optional? key string? = some found :=
  kept.optional?_written known written (by simp) fun _ => rfl

/-- The items of the array that a member holds: none if it is absent or `null`. -/
def itemsOf (ms : Members) (key : String) : List Json :=
  (ms.values key).flatMap fun v =>
    match v with
    | .arr items => items
    | _ => []

/-- What an optional list holds was read from the items, one by one. -/
theorem forall₂_itemsOf {read : Json → Option β} {found : Option (List β)}
    (done : ms.optional? key (list? read) = some found) :
    List.Forall₂ (fun item x => read item = some x) (ms.itemsOf key) (found.getD []) := by
  rcases optional?_cases done with ⟨rfl, absent | null⟩ | ⟨v, xs, single, reads, rfl⟩
  · simp [itemsOf, absent]
  · simp [itemsOf, null]
  · cases v with
    | arr items =>
      rw [itemsOf, single, List.flatMap_singleton]
      exact mapM_eq_some_iff.1 reads
    | null | bool | num | str | obj => cases reads

/-- **What a record keeps of an object**: if no member repeats, those that it does not declare, in
order. Their values are the same if nothing inside them repeats either, and are merged otherwise. -/
structure Leaves (declared : List String) (ms extra : Members) : Prop where
  merged : (ms.map Prod.fst).Nodup →
    extra = (ms.filter fun m => m.1 ∉ declared).map fun m => (m.1, m.2.merged)
  exact : (Json.obj ms).Distinct → extra = ms.filter fun m => m.1 ∉ declared

theorem leaves_extras (declared : List String) (ms : Members) :
    ms.Leaves declared (ms.extras declared) := by
  have undeclared : (ms.filter fun m => !declared.contains m.1) = ms.filter fun m => m.1 ∉ declared := by
    apply List.filter_congr
    intro m _
    simp
  constructor
  · intro once
    have kept := once.sublist ((List.filter_sublist (p := fun m => !declared.contains m.1)).map Prod.fst)
    rw [extras, mergedMembers_of_nodup (by simpa using kept), List.nil_append, undeclared]
  · intro distinct
    cases distinct with
    | obj once each =>
      have settled : ms.Settled := ⟨once, fun m member => (each m member).merged_eq⟩
      rw [settled.extras_eq, undeclared]

theorem Settled.perm {ms ns : Members} (settled : ms.Settled) (order : ms.Perm ns) : ns.Settled where
  once := (order.map Prod.fst).nodup_iff.1 settled.once
  merged m member := settled.merged m (order.mem_iff.2 member)

end Members

theorem eq_obj_of_members? {v : Json} {ms : Members} (object : v.members? = some ms) : v = .obj ms := by
  cases v with
  | obj ns =>
    cases object
    rfl
  | null | bool | num | str | arr => cases object

end Json

namespace Markup

/-! ## Maps -/

theorem perm_insertByName (m : String × Json) (ms : Members) :
    (insertByName m ms).Perm (m :: ms) := by
  induction ms with
  | nil => exact .refl _
  | cons n ms ih =>
    rw [insertByName]
    split
    · exact .refl _
    · exact (ih.cons n).trans (.swap m n ms)

theorem perm_sortByName (ms : Members) : (sortByName ms).Perm ms := by
  induction ms with
  | nil => exact .refl _
  | cons m ms ih => exact (perm_insertByName m _).trans (ih.cons m)

/-- Members in the order of their names, no two of them alike. -/
def Ascending (ms : Members) : Prop := ms.Pairwise fun m n => m.1 < n.1

theorem Ascending.insertByName {m : String × Json} {ms : Members} (ascending : Ascending ms)
    (new : ∀ n ∈ ms, n.1 ≠ m.1) : Ascending (Markup.insertByName m ms) := by
  induction ms with
  | nil => exact List.pairwise_singleton _ _
  | cons n ms ih =>
    obtain ⟨first, later⟩ := List.pairwise_cons.1 ascending
    rw [Markup.insertByName]
    split
    · rename_i before
      refine List.pairwise_cons.2 ⟨fun k member => ?_, ascending⟩
      rcases List.mem_cons.1 member with rfl | member
      · exact before
      · exact String.lt_trans before (first k member)
    · rename_i notBefore
      have after : n.1 < m.1 :=
        Std.lt_of_le_of_ne (String.not_lt.1 notBefore) (new n List.mem_cons_self)
      refine List.pairwise_cons.2 ⟨fun k member => ?_, ih later fun k member => ?_⟩
      · rcases List.mem_cons.1 ((perm_insertByName m ms).mem_iff.1 member) with rfl | member
        · exact after
        · exact first k member
      · exact new k (List.mem_cons_of_mem _ member)

theorem ascending_sortByName {ms : Members} (once : (ms.map Prod.fst).Nodup) :
    Ascending (sortByName ms) := by
  induction ms with
  | nil => exact .nil
  | cons m ms ih =>
    obtain ⟨new, later⟩ := List.nodup_cons.1 once
    refine (ih later).insertByName fun n member same => new ?_
    rw [← same]
    exact List.mem_map_of_mem ((perm_sortByName ms).mem_iff.1 member)

theorem Ascending.sortByName_eq {ms : Members} (ascending : Ascending ms) : sortByName ms = ms := by
  induction ms with
  | nil => rfl
  | cons m ms ih =>
    obtain ⟨first, later⟩ := List.pairwise_cons.1 ascending
    rw [sortByName, List.foldr_cons, ← sortByName, ih later]
    cases ms with
    | nil => rfl
    | cons n ms => rw [Markup.insertByName, if_pos (first n List.mem_cons_self)]

/-- A map is read back in the order of its names iff it holds each of them once. -/
theorem attributeMap?_obj_iff {ms : Members} :
    attributeMap? (.obj ms) = some (sortByName ms) ↔ ms.Settled := by
  rw [attributeMap?, Json.members?, Option.map_some, Option.some.injEq]
  constructor
  · intro same
    have order : (Json.mergedMembers [] ms).Perm ms :=
      (perm_sortByName _).symm.trans (same ▸ perm_sortByName ms)
    exact (Json.settled_mergedMembers ms).perm order
  · intro settled
    rw [settled.mergedMembers_eq]

/-! ## Events -/

namespace Events

/-- The events with each name once: the last handlers, at the first place. -/
theorem foldl_upsert_of_nodup {before events : Events}
    (once : ((before ++ events).map Prod.fst).Nodup) :
    events.foldl (fun before (name, handlers) => Json.upsert before name handlers) before
      = before ++ events := by
  induction events generalizing before with
  | nil => rw [List.foldl_nil, List.append_nil]
  | cons event events ih =>
    obtain ⟨name, handlers⟩ := event
    have new : name ∉ before.map Prod.fst := by
      rw [List.map_append, List.map_cons] at once
      exact fun known => (List.nodup_append.1 once).2.2 name known name (by simp) rfl
    have step : Json.upsert before name handlers = before ++ [(name, handlers)] :=
      Json.upsert_of_not_mem handlers new
    have onceAfter : ((before ++ [(name, handlers)] ++ events).map Prod.fst).Nodup := by
      simpa using once
    have rest := ih onceAfter
    rw [List.append_assoc] at rest
    rw [List.foldl_cons]
    show events.foldl _ (Json.upsert before name handlers) = _
    rw [step]
    exact rest

theorem nodup_foldl_upsert {before : Events} (events : Events) (once : (before.map Prod.fst).Nodup) :
    ((events.foldl (fun before (name, handlers) => Json.upsert before name handlers) before).map
      Prod.fst).Nodup := by
  induction events generalizing before with
  | nil => exact once
  | cons event events ih => exact ih (Json.nodup_keys_upsert event.1 event.2 once)

theorem nodup_of_ofJson? {v : Json} {events : Events} (done : ofJson? v = some events) :
    (events.map Prod.fst).Nodup := by
  simp only [ofJson?, Option.bind_eq_bind, Option.bind_eq_some_iff, Option.pure_def,
    Option.some.injEq] at done
  obtain ⟨ms, -, found, -, rfl⟩ := done
  exact nodup_foldl_upsert found List.nodup_nil

theorem ofMembers?_toJson (events : Events) :
    ofMembers? (events.map fun (name, handlers) =>
      (name, Json.orNull (fun sources => .arr (sources.map .str)) handlers)) = some events := by
  apply (mapM_map_eq_some_map_iff _ (fun event => event)).2 _ |>.trans (by rw [List.map_id'])
  rintro ⟨name, handlers⟩ -
  cases handlers with
  | none => rfl
  | some sources =>
    have texts := Json.mapM_string?_map_str sources
    simp only [Json.orNull, Json.nullable?, Json.list?, texts]
    rfl

theorem ofJson?_toJson_iff (events : Events) :
    ofJson? events.toJson = some events ↔ (events.map Prod.fst).Nodup := by
  constructor
  · exact nodup_of_ofJson?
  · intro once
    simp only [ofJson?, toJson, Json.members?, Option.bind_eq_bind, Option.bind_some,
      ofMembers?_toJson, Option.pure_def, Option.some.injEq]
    exact foldl_upsert_of_nodup once

theorem toJson_ne_null (events : Events) : events.toJson ≠ .null := by
  rw [toJson]
  intro same
  cases same

end Events

/-! ## Guards, loops and attributes -/

theorem Guard.ofJson?_toJson (g : Guard) : ofJson? g.toJson = some g := by
  obtain ⟨raw, source⟩ := g
  cases raw with
  | none => rfl
  | some text => rfl

theorem Guard.toJson_ne_null (g : Guard) : g.toJson ≠ .null := by
  rw [toJson]
  intro same
  cases same

namespace Loop

/-- The members that a loop declares, with their values. -/
def ownMembers (l : Loop) : Members :=
  [("raw", Json.orNull .str l.raw), ("exp", .str l.source), ("index", Json.orNull .str l.index),
    ("item", Json.orNull .str l.item), ("key", Json.orNull .str l.key)]

theorem toJson_eq (l : Loop) : l.toJson = .obj (l.ownMembers ++ l.extra) := rfl

theorem keys_ownMembers (l : Loop) : (l.ownMembers.map Prod.fst).Sublist declared :=
  List.Sublist.refl declared

theorem toJson_ne_null (l : Loop) : l.toJson ≠ .null := by
  rw [toJson_eq]
  intro same
  cases same

theorem leaves_of_ofJson? {v : Json} {l : Loop} (read : ofJson? v = some l) :
    ∃ ms, v = .obj ms ∧ Members.Leaves declared ms l.extra := by
  simp only [ofJson?, Option.bind_eq_bind, Option.bind_eq_some_iff, Option.pure_def,
    Option.some.injEq] at read
  obtain ⟨ms, object, raw, -, source, -, index, -, item, -, key, -, rfl⟩ := read
  exact ⟨ms, Json.eq_obj_of_members? object, ms.leaves_extras declared⟩

/-- **A loop is read back as it is iff what it keeps is apart from what it declares.** -/
theorem ofJson?_toJson_iff (l : Loop) : ofJson? l.toJson = some l ↔ l.extra.KeptBy declared := by
  constructor
  · exact keptBy_of_ofJson?
  · intro kept
    have source : (l.ownMembers ++ l.extra).values "exp" = [.str l.source] := by
      rw [kept.values_append (by decide)]
      simp [ownMembers]
    have raw : (l.ownMembers ++ l.extra).optional? "raw" Json.string? = some l.raw :=
      kept.optional?_text (by decide) (by simp [ownMembers])
    have index : (l.ownMembers ++ l.extra).optional? "index" Json.string? = some l.index :=
      kept.optional?_text (by decide) (by simp [ownMembers])
    have item : (l.ownMembers ++ l.extra).optional? "item" Json.string? = some l.item :=
      kept.optional?_text (by decide) (by simp [ownMembers])
    have key : (l.ownMembers ++ l.extra).optional? "key" Json.string? = some l.key :=
      kept.optional?_text (by decide) (by simp [ownMembers])
    simp [toJson_eq, ofJson?, Json.members?, Members.required?_of_values _ source, Json.string?, raw,
      index, item, key, kept.extras_append l.keys_ownMembers]

end Loop

namespace Attribute

/-- The members that an attribute declares, with their values. -/
def ownMembers (a : Attribute) : Members :=
  [("name", .str a.name), ("value", Json.orNull .str a.value),
    ("staticClassExp", Json.orNull .str a.staticClass),
    ("dynamicClassExp", Json.orNull .str a.dynamicClass),
    ("staticStyleExp", Json.orNull .str a.staticStyle),
    ("dynamicStyleExp", Json.orNull .str a.dynamicStyle),
    ("eventConfigMap", Json.orNull Events.toJson a.events), ("__exps", Json.orNull Slot.toJson a.slot)]

theorem toJson_eq (a : Attribute) : a.toJson = .obj (a.ownMembers ++ a.extra) := rfl

theorem keys_ownMembers (a : Attribute) : (a.ownMembers.map Prod.fst).Sublist declared :=
  List.Sublist.refl declared

theorem leaves_of_ofJson? {v : Json} {a : Attribute} (read : ofJson? v = some a) :
    ∃ ms, v = .obj ms ∧ Members.Leaves declared ms a.extra := by
  simp only [ofJson?, Option.bind_eq_bind, Option.bind_eq_some_iff, Option.pure_def,
    Option.some.injEq] at read
  obtain ⟨ms, object, name, -, value, -, staticClass, -, dynamicClass, -, staticStyle, -, dynamicStyle, -,
    events, -, slot, -, rfl⟩ := read
  exact ⟨ms, Json.eq_obj_of_members? object, ms.leaves_extras declared⟩

/-- An attribute that its JSON form keeps. -/
structure Faithful (a : Attribute) : Prop where
  extra : a.extra.KeptBy declared
  events : ∀ events, a.events = some events → (events.map Prod.fst).Nodup
  numbers : ∀ s, a.slot = some s → AllFinite s.numbers

/-- An attribute that keeps its extra members apart is read back as it is iff its events and its
expressions are. -/
theorem ofJson?_toJson_iff_members {a : Attribute} (kept : a.extra.KeptBy declared) :
    ofJson? a.toJson = some a ↔
      (∀ events, a.events = some events → Events.ofJson? (Events.toJson events) = some events) ∧
        ∀ s, a.slot = some s → Slot.ofJson? s.toJson = some s := by
  have name : (a.ownMembers ++ a.extra).values "name" = [.str a.name] := by
    rw [kept.values_append (by decide)]
    simp [ownMembers]
  have value : (a.ownMembers ++ a.extra).optional? "value" Json.string? = some a.value :=
    kept.optional?_text (by decide) (by simp [ownMembers])
  have staticClass :
      (a.ownMembers ++ a.extra).optional? "staticClassExp" Json.string? = some a.staticClass :=
    kept.optional?_text (by decide) (by simp [ownMembers])
  have dynamicClass :
      (a.ownMembers ++ a.extra).optional? "dynamicClassExp" Json.string? = some a.dynamicClass :=
    kept.optional?_text (by decide) (by simp [ownMembers])
  have staticStyle :
      (a.ownMembers ++ a.extra).optional? "staticStyleExp" Json.string? = some a.staticStyle :=
    kept.optional?_text (by decide) (by simp [ownMembers])
  have dynamicStyle :
      (a.ownMembers ++ a.extra).optional? "dynamicStyleExp" Json.string? = some a.dynamicStyle :=
    kept.optional?_text (by decide) (by simp [ownMembers])
  have events : (a.ownMembers ++ a.extra).values "eventConfigMap"
      = [Json.orNull Events.toJson a.events] := by
    rw [kept.values_append (by decide)]
    simp [ownMembers]
  have slot : (a.ownMembers ++ a.extra).values "__exps" = [Json.orNull Slot.toJson a.slot] := by
    rw [kept.values_append (by decide)]
    simp [ownMembers]
  rw [← Members.optional?_orNull_same_iff Events.ofJson? events Events.toJson_ne_null,
    ← Members.optional?_orNull_same_iff Slot.ofJson? slot Slot.toJson_ne_null]
  simp only [toJson_eq, ofJson?, Json.members?, Option.bind_eq_bind, Option.bind_some,
    Members.required?_of_values _ name, Json.string?, value, staticClass, dynamicClass, staticStyle,
    dynamicStyle, kept.extras_append a.keys_ownMembers, Option.bind_eq_some_iff, Option.pure_def,
    Option.some.injEq]
  constructor
  · rintro ⟨es, readEvents, s, readSlot, same⟩
    obtain rfl : es = a.events := congrArg Attribute.events same
    obtain rfl : s = a.slot := congrArg Attribute.slot same
    exact ⟨readEvents, readSlot⟩
  · rintro ⟨readEvents, readSlot⟩
    exact ⟨a.events, readEvents, a.slot, readSlot, rfl⟩

/-- **An attribute is read back as it is iff it is faithful.** -/
theorem ofJson?_toJson_iff (a : Attribute) : ofJson? a.toJson = some a ↔ a.Faithful := by
  constructor
  · intro done
    have kept := keptBy_of_ofJson? done
    obtain ⟨events, slot⟩ := (ofJson?_toJson_iff_members kept).1 done
    refine ⟨kept, ?_, ?_⟩
    · intro es present
      exact (Events.ofJson?_toJson_iff es).1 (events es present)
    · intro s present
      exact s.ofJson?_toJson_iff.1 (slot s present)
  · rintro ⟨kept, events, numbers⟩
    apply (ofJson?_toJson_iff_members kept).2
    constructor
    · intro es present
      exact (Events.ofJson?_toJson_iff es).2 (events es present)
    · intro s present
      exact s.ofJson?_toJson_iff.2 (numbers s present)

theorem keeps_faithful : Keeps ofJson? Faithful := by
  intro v a fits done
  have kept := keptBy_of_ofJson? done
  simp only [ofJson?, Option.bind_eq_bind, Option.bind_eq_some_iff, Option.pure_def,
    Option.some.injEq] at done
  obtain ⟨ms, object, name, -, value, -, staticClass, -, dynamicClass, -, staticStyle, -, dynamicStyle,
    -, events, readEvents, slot, readSlot, rfl⟩ := done
  have once : Keeps Events.ofJson? fun events => (events.map Prod.fst).Nodup :=
    fun _ _ _ => Events.nodup_of_ofJson?
  have each := fits.members object
  exact ⟨kept, each.optional once readEvents, each.optional Slot.keeps_finite readSlot⟩

end Attribute

theorem keeps_settled_attributeMap : Keeps attributeMap? Members.Settled := by
  intro v ms _ done
  obtain ⟨ns, -, rfl⟩ := Option.map_eq_some_iff.1 done
  exact (Json.settled_mergedMembers ns).perm (perm_sortByName _).symm

namespace Node

/-! ## Nodes -/

mutual

/-- A tree with the attributes by name in the order of their names, at every node. -/
def sorted : Node → Node
  | { kind, tag, text, attributes, attributeMap, children, ifGuard, elseIfGuard, isElse, loop,
      staticIf, extra } =>
    { kind, tag, text, attributes, attributeMap := attributeMap.map sortByName,
      children := sortedChildren children, ifGuard, elseIfGuard, isElse, loop, staticIf, extra }

/-- Children that may be absent, each sorted. -/
def sortedChildren : Option (List Node) → Option (List Node)
  | none => none
  | some nodes => some (sortedAll nodes)

/-- Nodes, each sorted. -/
def sortedAll : List Node → List Node
  | [] => []
  | n :: rest => n.sorted :: sortedAll rest

end

theorem sortedAll_eq_map (nodes : List Node) : sortedAll nodes = nodes.map sorted := by
  exact eq_map_of_cons rfl (fun n rest => by rw [sortedAll]) nodes

theorem sorted_eq (n : Node) :
    n.sorted = { n with
      attributeMap := n.attributeMap.map sortByName
      children := n.children.map (List.map sorted) } := by
  cases n with
  | mk kind tag text attributes attributeMap children =>
    cases children with
    | none => rfl
    | some nodes => rw [sorted, sortedChildren, sortedAll_eq_map, Option.map_some]

/-- The members that a node declares, with their values. -/
def ownMembers (n : Node) : Members :=
  [("type", n.kind.toJson), ("tag", Json.orNull .str n.tag), ("text", Json.orNull .str n.text),
    ("attrsList", Json.orNull (fun as => .arr (as.map Attribute.toJson)) n.attributes),
    ("attrsMap", Json.orNull .obj n.attributeMap),
    ("children", Json.orNull (fun nodes => .arr (nodes.map toJson)) n.children),
    ("if", Json.orNull Guard.toJson n.ifGuard), ("elseif", Json.orNull Guard.toJson n.elseIfGuard),
    ("else", .bool n.isElse), ("for", Json.orNull Loop.toJson n.loop),
    ("_if", Json.orNull .bool n.staticIf)]

theorem toJsons_eq_map (nodes : List Node) : toJsons nodes = nodes.map toJson := by
  exact eq_map_of_cons rfl (fun n rest => by rw [toJsons]) nodes

theorem toJson_eq (n : Node) : n.toJson = .obj (n.ownMembers ++ n.extra) := by
  cases n with
  | mk kind tag text attributes attributeMap children =>
    cases children with
    | none => rfl
    | some nodes => rw [toJson, childrenJson, toJsons_eq_map, ownMembers, Json.orNull]

theorem keys_ownMembers (n : Node) : (n.ownMembers.map Prod.fst).Sublist declared :=
  List.Sublist.refl declared

/-- A node that keeps its extra members apart is read back, sorted, iff each of its members
is. -/
theorem ofJsonWithin?_toJson_iff_members {n : Node} (kept : n.extra.KeptBy declared) (bound : Nat) :
    ofJsonWithin? (bound + 1) n.toJson = some n.sorted ↔
      (∀ a ∈ n.attributeList, Attribute.ofJson? a.toJson = some a) ∧
      (∀ ms, n.attributeMap = some ms → attributeMap? (.obj ms) = some (sortByName ms)) ∧
      (∀ c ∈ n.childList, ofJsonWithin? bound c.toJson = some c.sorted) ∧
      ∀ l, n.loop = some l → Loop.ofJson? l.toJson = some l := by
  have values {key : String} (v : Json) (known : key ∈ declared) (own : n.ownMembers.values key = [v]) :
      (n.ownMembers ++ n.extra).values key = [v] := (kept.values_append known).trans own
  have kind : (n.ownMembers ++ n.extra).required? "type" NodeKind.ofJson? = some n.kind := by
    rw [Members.required?_of_values _ (values n.kind.toJson (by decide) (by simp [ownMembers])),
      NodeKind.ofJson?_toJson]
  have tag : (n.ownMembers ++ n.extra).optional? "tag" Json.string? = some n.tag :=
    kept.optional?_text (by decide) (by simp [ownMembers])
  have text : (n.ownMembers ++ n.extra).optional? "text" Json.string? = some n.text :=
    kept.optional?_text (by decide) (by simp [ownMembers])
  have ifGuard : (n.ownMembers ++ n.extra).optional? "if" Guard.ofJson? = some n.ifGuard :=
    kept.optional?_written (by decide) (by simp [ownMembers]) Guard.toJson_ne_null Guard.ofJson?_toJson
  have elseIfGuard : (n.ownMembers ++ n.extra).optional? "elseif" Guard.ofJson? = some n.elseIfGuard :=
    kept.optional?_written (by decide) (by simp [ownMembers]) Guard.toJson_ne_null Guard.ofJson?_toJson
  have isElse : (n.ownMembers ++ n.extra).flag? "else" false = some n.isElse := by
    rw [Members.flag?, values (.bool n.isElse) (by decide) (by simp [ownMembers])]
    rfl
  have staticIf : (n.ownMembers ++ n.extra).optional? "_if" Json.bool? = some n.staticIf :=
    kept.optional?_written (show "_if" ∈ declared by decide)
      (show n.ownMembers.values "_if" = [Json.orNull .bool n.staticIf] by simp [ownMembers]) (by simp)
      fun _ => rfl
  -- The members so far are read back whatever they hold. The other four are read back on a condition
  -- each, so they are kept as equivalences.
  have attributes := Members.optional?_orNull_list_iff Attribute.ofJson? (fun a => a)
    (values (Json.orNull (fun as => .arr (as.map Attribute.toJson)) n.attributes)
      (show "attrsList" ∈ declared by decide) (by simp [ownMembers]))
  rw [List.map_id_fun', Option.map_id, id_eq] at attributes
  have attributeMap := Members.optional?_orNull_iff attributeMap? sortByName
    (values (Json.orNull .obj n.attributeMap) (show "attrsMap" ∈ declared by decide)
      (by simp [ownMembers])) (by simp)
  have children := Members.optional?_orNull_list_iff (ofJsonWithin? bound) sorted
    (values (Json.orNull (fun nodes => .arr (nodes.map toJson)) n.children)
      (show "children" ∈ declared by decide) (by simp [ownMembers]))
  have loop := Members.optional?_orNull_same_iff Loop.ofJson?
    (values (Json.orNull Loop.toJson n.loop) (show "for" ∈ declared by decide) (by simp [ownMembers]))
    Loop.toJson_ne_null
  rw [attributeList, childList, ← attributes, ← attributeMap, ← children, ← loop]
  simp only [toJson_eq, ofJsonWithin?, Json.members?, Option.bind_eq_bind, Option.bind_some, kind, tag,
    text, ifGuard, elseIfGuard, isElse, staticIf, kept.extras_append n.keys_ownMembers,
    Option.bind_eq_some_iff, Option.pure_def, Option.some.injEq]
  rw [sorted_eq]
  constructor
  · rintro ⟨as, readAs, ms, readMap, ns, readNs, l, readL, same⟩
    obtain rfl : as = n.attributes := congrArg Node.attributes same
    obtain rfl : ms = n.attributeMap.map sortByName := congrArg Node.attributeMap same
    obtain rfl : ns = n.children.map (List.map sorted) := congrArg Node.children same
    obtain rfl : l = n.loop := congrArg Node.loop same
    exact ⟨readAs, readMap, readNs, readL⟩
  · rintro ⟨readAs, readMap, readNs, readL⟩
    exact ⟨_, readAs, _, readMap, _, readNs, _, readL, rfl⟩

/-- **A tree that its JSON form keeps**: at every node, extra members are apart from declared ones,
maps hold each name once, and expressions have finite numbers. -/
inductive Faithful : Node → Prop where
  | mk {n : Node} (own : n.extra.KeptBy declared) (attributes : ∀ a ∈ n.attributeList, a.Faithful)
      (map : ∀ ms, n.attributeMap = some ms → ms.Settled)
      (loop : ∀ l, n.loop = some l → l.extra.KeptBy Loop.declared)
      (below : ∀ c ∈ n.childList, Faithful c) : Faithful n

/-- **The step**: a node is read back iff what it holds itself is, and each of its children. -/
theorem ofJsonWithin?_toJson_iff_parts (n : Node) (bound : Nat) :
    ofJsonWithin? (bound + 1) n.toJson = some n.sorted ↔
      n.extra.KeptBy declared ∧ (∀ a ∈ n.attributeList, a.Faithful) ∧
        (∀ ms, n.attributeMap = some ms → ms.Settled) ∧
        (∀ l, n.loop = some l → l.extra.KeptBy Loop.declared) ∧
        ∀ c ∈ n.childList, ofJsonWithin? bound c.toJson = some c.sorted := by
  constructor
  · intro done
    have kept : n.extra.KeptBy declared := by
      cases wellKept_of_ofJsonWithin? done with
      | mk own => simpa [sorted_eq] using own
    obtain ⟨attributes, map, children, loop⟩ := (ofJsonWithin?_toJson_iff_members kept bound).1 done
    refine ⟨kept, ?_, ?_, ?_, children⟩
    · intro a member
      exact a.ofJson?_toJson_iff.1 (attributes a member)
    · intro ms present
      exact attributeMap?_obj_iff.1 (map ms present)
    · intro l present
      exact l.ofJson?_toJson_iff.1 (loop l present)
  · rintro ⟨kept, attributes, map, loop, children⟩
    rw [ofJsonWithin?_toJson_iff_members kept]
    refine ⟨?_, ?_, children, ?_⟩
    · intro a member
      exact a.ofJson?_toJson_iff.2 (attributes a member)
    · intro ms present
      exact attributeMap?_obj_iff.2 (map ms present)
    · intro l present
      exact l.ofJson?_toJson_iff.2 (loop l present)

theorem depth_toJson_child_lt {n c : Node} (child : c ∈ n.childList) :
    c.toJson.depth < n.toJson.depth := by
  cases present : n.children with
  | none => simp [childList, present] at child
  | some nodes =>
    have inside : c ∈ nodes := by simpa [childList, present] using child
    have member : ("children", Json.arr (nodes.map toJson)) ∈ n.ownMembers := by
      simp [ownMembers, present, Json.orNull]
    have outer := Json.depth_le_depthMembers (List.mem_append_left n.extra member)
    have inner := Json.depth_le_depthItems (List.mem_map_of_mem (f := toJson) inside)
    rw [Json.depth] at outer
    rw [n.toJson_eq, Json.depth]
    omega

theorem ofJsonWithin?_toJson_iff (n : Node) {bound : Nat} (deep : n.toJson.depth < bound) :
    ofJsonWithin? bound n.toJson = some n.sorted ↔ n.Faithful := by
  induction n using induction_on_children generalizing bound with
  | step n children =>
    obtain ⟨bound, rfl⟩ : ∃ b, bound = b + 1 := ⟨bound - 1, by omega⟩
    have each : ∀ c ∈ n.childList, (ofJsonWithin? bound c.toJson = some c.sorted ↔ c.Faithful) := by
      intro c member
      have smaller := depth_toJson_child_lt member
      apply children c member
      omega
    rw [ofJsonWithin?_toJson_iff_parts]
    constructor
    · rintro ⟨kept, attributes, map, loop, below⟩
      exact .mk kept attributes map loop fun c member => (each c member).1 (below c member)
    · rintro ⟨kept, attributes, map, loop, below⟩
      exact ⟨kept, attributes, map, loop, fun c member => (each c member).2 (below c member)⟩

/-- **A tree is read back, sorted, iff it is faithful.** -/
theorem ofJson?_toJson_iff (n : Node) : ofJson? n.toJson = some n.sorted ↔ n.Faithful :=
  n.ofJsonWithin?_toJson_iff (Nat.lt_succ_self _)

/-! ## Trees that were read -/

/-- **Whatever was read is faithful**, if its numbers were in range. -/
theorem keeps_faithfulWithin (depth : Nat) : Keeps (ofJsonWithin? depth) Faithful := by
  induction depth with
  | zero =>
    intro v n _ done
    cases done
  | succ depth ih =>
    intro v n fits done
    simp only [ofJsonWithin?, Option.bind_eq_bind, Option.bind_eq_some_iff, Option.pure_def,
      Option.some.injEq] at done
    obtain ⟨ms, object, kind, -, tag, -, text, -, attributes, readAttributes, attributeMap, readMap,
      children, readChildren, ifGuard, -, elseIfGuard, -, isElse, -, loop, readLoop, staticIf, -,
      rfl⟩ := done
    have loops : Keeps Loop.ofJson? fun l => l.extra.KeptBy Loop.declared :=
      fun _ _ _ => Loop.keptBy_of_ofJson?
    have each := fits.members object
    exact .mk (ms.keptBy_extras declared) (each.optionalList Attribute.keeps_faithful readAttributes)
      (each.optional keeps_settled_attributeMap readMap) (each.optional loops readLoop)
      (each.optionalList ih readChildren)

/-- What was read is sorted already. -/
theorem sorted_of_ofJsonWithin? {depth : Nat} {v : Json} {n : Node}
    (done : ofJsonWithin? depth v = some n) : n.sorted = n := by
  induction depth generalizing v n with
  | zero => cases done
  | succ depth ih =>
    simp only [ofJsonWithin?, Option.bind_eq_bind, Option.bind_eq_some_iff, Option.pure_def,
      Option.some.injEq] at done
    obtain ⟨ms, -, kind, -, tag, -, text, -, attributes, -, attributeMap, readMap, children,
      readChildren, ifGuard, -, elseIfGuard, -, isElse, -, loop, -, staticIf, -, rfl⟩ := done
    have map : attributeMap.map sortByName = attributeMap := by
      cases attributeMap with
      | none => rfl
      | some ns =>
        obtain ⟨w, read⟩ := Json.exists_of_optional? readMap ns rfl
        obtain ⟨ks, -, rfl⟩ := Option.map_eq_some_iff.1 read
        have once := (Json.settled_mergedMembers ks).once
        rw [Option.map_some, (ascending_sortByName once).sortByName_eq]
    have below : children.map (List.map sorted) = children := by
      cases children with
      | none => rfl
      | some nodes =>
        have each : ∀ c ∈ nodes, c.sorted = c := by
          intro c member
          obtain ⟨item, read⟩ := Json.exists_of_mem_optional_list readChildren c member
          exact ih read
        rw [Option.map_some, List.map_congr_left each, List.map_id']
    rw [sorted_eq, map, below]

/-! ## Where undeclared members go -/

/-- **At every depth, each member that is not declared is kept**: by the node, the attribute or the
loop that its object is read as. -/
inductive Routed : Json → Node → Prop where
  | mk {ms : Members} {n : Node} (own : ms.Leaves declared n.extra)
      (attributes : List.Forall₂ (fun v a => ∃ ns, v = .obj ns ∧ Members.Leaves Attribute.declared ns a.extra)
        (ms.itemsOf "attrsList") n.attributeList)
      (loop : ∀ v ∈ ms.values "for", v ≠ .null →
        ∃ l ns, n.loop = some l ∧ v = .obj ns ∧ Members.Leaves Loop.declared ns l.extra)
      (children : List.Forall₂ Routed (ms.itemsOf "children") n.childList) : Routed (.obj ms) n

theorem routed_of_ofJsonWithin? {depth : Nat} {v : Json} {n : Node}
    (done : ofJsonWithin? depth v = some n) : Routed v n := by
  induction depth generalizing v n with
  | zero => cases done
  | succ depth ih =>
    simp only [ofJsonWithin?, Option.bind_eq_bind, Option.bind_eq_some_iff, Option.pure_def,
      Option.some.injEq] at done
    obtain ⟨ms, object, kind, -, tag, -, text, -, attributes, readAttributes, attributeMap, -, children,
      readChildren, ifGuard, -, elseIfGuard, -, isElse, -, loop, readLoop, staticIf, -, rfl⟩ := done
    rw [Json.eq_obj_of_members? object]
    refine .mk (ms.leaves_extras declared) ?_ ?_ ?_
    · exact (Members.forall₂_itemsOf readAttributes).imp fun _ _ => Attribute.leaves_of_ofJson?
    · intro w found solid
      rcases Members.optional?_cases readLoop with ⟨-, absent | null⟩ | ⟨w', l, single, read, rfl⟩
      · simp [absent] at found
      · simp [null, solid] at found
      · obtain rfl : w = w' := by simpa [single] using found
        obtain ⟨ns, same, leaves⟩ := Loop.leaves_of_ofJson? read
        exact ⟨l, ns, rfl, same, leaves⟩
    · exact (Members.forall₂_itemsOf readChildren).imp fun _ _ => ih

/-- **Reading a tree loses nothing.** Members that are not declared go, in order, to the node, the
attribute or the loop that has them; what was read is written and read again as it was, if its
numbers were in range, as are those of the value of every text; and of all trees it is exactly the
faithful ones that are read back, up to the order of attributes by name. -/
theorem reading_loses_nothing :
    (∀ (v : Json) (n : Node), ofJson? v = some n → Routed v n) ∧
    (∀ (v : Json) (n : Node), v.InRange → ofJson? v = some n →
      n.Faithful ∧ ofJson? n.toJson = some n) ∧
    (∀ n : Node, ofJson? n.toJson = some n.sorted ↔ n.Faithful) ∧
    ∀ (depth : Nat) (text : String) (v : Json) (rest : List Char),
      Json.read depth text = .done v rest → v.InRange := by
  refine ⟨fun v n => routed_of_ofJsonWithin?, ?_, ofJson?_toJson_iff, fun _ _ _ _ => Json.inRange_of_read⟩
  intro v n fits done
  have faithful := keeps_faithfulWithin (v.depth + 1) v n fits done
  have back := n.ofJson?_toJson_iff.2 faithful
  rw [sorted_of_ofJsonWithin? done] at back
  exact ⟨faithful, back⟩

/-- A node with members that no record declares at three depths. Its guard is an array, and its
attributes by name are out of order. -/
def annotatedJson : Json :=
  .obj [("line", .num (.int 3)), ("type", .num (.int 1)),
    ("attrsMap", .obj [("b", .str "2"), ("a", .null)]), ("if", .arr [.null, .str "ok"]),
    ("for", .obj [("exp", .str "xs"), ("span", .arr [.num (.int 1), .null]), ("key", .null)]),
    ("attrsList", .arr [.obj [("start", .num (.int 0)), ("name", .str "bindTap"), ("end", .null),
      ("eventConfigMap", .obj [("tap", .arr [.str "go()"]), ("hold", .null)]),
      ("__exps", .obj [("kind", .str "generic"), ("value", .arr [.str "Literal", .num (.int 7)])])]]),
    ("children", .arr [.obj [("type", .num (.int 3)), ("raw", .bool true)]]), ("note", .obj [])]

/-- The node, as it is read. -/
def annotated : Node where
  kind := .element
  attributes := some [{
    name := "bindTap"
    events := some [("tap", some ["go()"]), ("hold", none)]
    slot := some (.generic (.literal (.number (.ofInt 7))))
    extra := [("start", .num (.int 0)), ("end", .null)] }]
  attributeMap := some [("a", .null), ("b", .str "2")]
  children := some [{ kind := .text, extra := [("raw", .bool true)] }]
  ifGuard := some { source := "ok" }
  loop := some { source := "xs", extra := [("span", .arr [.num (.int 1), .null])] }
  extra := [("line", .num (.int 3)), ("note", .obj [])]

theorem annotated_reads_back :
    ofJson? annotatedJson = some annotated ∧ Routed annotatedJson annotated ∧
      ofJson? annotated.toJson = some annotated := by
  have fits : annotatedJson.InRange := by
    simp [annotatedJson, Json.Number.InRange]
  have read : ofJson? annotatedJson = some annotated := rfl
  exact ⟨read, reading_loses_nothing.1 annotatedJson annotated read,
    (reading_loses_nothing.2.1 annotatedJson annotated fits read).2⟩

end Node

end Markup

end MiniTemplate
