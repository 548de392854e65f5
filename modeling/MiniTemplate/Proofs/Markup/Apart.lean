import MiniTemplate.Markup.Codec
import MiniTemplate.Proofs.Json.Merged

/-!
# Markup trees that were read

A node that was read from JSON keeps a member as extra only if it does not declare
one of that name. `Node.Apart` says so at every depth, and `Node.apart_of_ofJson?`
that reading gives nothing else; `Node.WellKept` says more of what is kept, and of
attributes and loops too. The module also holds the induction on markup trees that
goes by the children of a node.
-/

namespace MiniTemplate

namespace Json

variable {α : Type}

/-- What an optional member is read from. -/
theorem Members.optional?_cases {ms : Members} {key : String} {read : Json → Option α}
    {found : Option α} (done : ms.optional? key read = some found) :
    (found = none ∧ (ms.values key = [] ∨ ms.values key = [.null])) ∨
      ∃ v x, ms.values key = [v] ∧ read v = some x ∧ found = some x := by
  unfold Members.optional? at done
  split at done
  · rename_i absent
    cases done
    exact .inl ⟨rfl, .inl absent⟩
  · rename_i v single
    cases v with
    | null =>
      cases done
      exact .inl ⟨rfl, .inr single⟩
    | bool | num | str | arr | obj =>
      obtain ⟨x, reads, rfl⟩ := Option.map_eq_some_iff.1 done
      exact .inr ⟨_, x, single, reads, rfl⟩
  · cases done

/-- What an optional member holds was read from a value. -/
theorem exists_of_optional? {ms : Members} {key : String} {read : Json → Option α} {found : Option α}
    (done : ms.optional? key read = some found) : ∀ x, found = some x → ∃ v, read v = some x := by
  rintro x rfl
  rcases Members.optional?_cases done with ⟨absent, -⟩ | ⟨v, y, -, reads, same⟩
  · cases absent
  · cases same
    exact ⟨v, reads⟩

/-- What an optional list holds was read from a value. -/
theorem exists_of_mem_optional_list {ms : Members} {key : String} {read : Json → Option α}
    {found : Option (List α)} (done : ms.optional? key (list? read) = some found) :
    ∀ x ∈ found.getD [], ∃ item, read item = some x := by
  intro x member
  cases found with
  | none => cases member
  | some xs =>
    obtain ⟨v, reads⟩ := exists_of_optional? done xs rfl
    cases v with
    | arr items =>
      obtain ⟨item, -, same⟩ := exists_of_mem_mapM reads member
      exact ⟨item, same⟩
    | null | bool | num | str | obj => cases reads

end Json

namespace Markup

theorem Attribute.keptBy_of_ofJson? {v : Json} {a : Attribute} (read : ofJson? v = some a) :
    a.extra.KeptBy declared := by
  simp only [ofJson?, Option.bind_eq_bind, Option.bind_eq_some_iff, Option.pure_def,
    Option.some.injEq] at read
  obtain ⟨ms, -, name, -, value, -, staticClass, -, dynamicClass, -, staticStyle, -, dynamicStyle, -,
    events, -, slot, -, rfl⟩ := read
  exact ms.keptBy_extras declared

theorem Loop.keptBy_of_ofJson? {v : Json} {l : Loop} (read : ofJson? v = some l) :
    l.extra.KeptBy declared := by
  simp only [ofJson?, Option.bind_eq_bind, Option.bind_eq_some_iff, Option.pure_def,
    Option.some.injEq] at read
  obtain ⟨ms, -, raw, -, source, -, index, -, item, -, key, -, rfl⟩ := read
  exact ms.keptBy_extras declared

namespace Node

theorem sizeOf_child_lt {n c : Node} (child : c ∈ n.childList) : sizeOf c < sizeOf n := by
  obtain ⟨kind, tag, text, attributes, attributeMap, children, ifGuard, elseIfGuard, isElse, loop,
    staticIf, extra⟩ := n
  cases children with
  | none => cases child
  | some nodes =>
    have smaller := List.sizeOf_lt_of_mem (show c ∈ nodes from child)
    simp only [Node.mk.sizeOf_spec, Option.some.sizeOf_spec]
    omega

/-- A property that a node has if its children have it holds of every node. -/
theorem induction_on_children {P : Node → Prop} (n : Node)
    (step : ∀ n : Node, (∀ c ∈ n.childList, P c) → P n) : P n := by
  generalize size : sizeOf n = m
  induction m using Nat.strongRecOn generalizing n with
  | ind m ih =>
    subst size
    exact step n fun c child => ih (sizeOf c) (sizeOf_child_lt child) c rfl

/-- At every depth, no extra member has the name of a declared one. -/
inductive Apart : Node → Prop where
  | mk {n : Node} (own : ∀ m ∈ n.extra, m.1 ∉ declared) (below : ∀ c ∈ n.childList, Apart c) : Apart n

/-- At every depth, a node, its attributes and its loop keep what reading a record keeps. -/
inductive WellKept : Node → Prop where
  | mk {n : Node} (own : n.extra.KeptBy declared)
      (attributes : ∀ a ∈ n.attributeList, a.extra.KeptBy Attribute.declared)
      (loop : ∀ l, n.loop = some l → l.extra.KeptBy Loop.declared)
      (below : ∀ c ∈ n.childList, WellKept c) : WellKept n

theorem WellKept.apart {n : Node} (kept : n.WellKept) : n.Apart := by
  induction kept with
  | mk own _ _ _ ih => exact .mk own.apart ih

theorem wellKept_of_ofJsonWithin? {depth : Nat} {v : Json} {n : Node}
    (read : ofJsonWithin? depth v = some n) : n.WellKept := by
  induction depth generalizing v n with
  | zero => cases read
  | succ depth ih =>
    simp only [ofJsonWithin?, Option.bind_eq_bind, Option.bind_eq_some_iff, Option.pure_def,
      Option.some.injEq] at read
    obtain ⟨ms, -, kind, -, tag, -, text, -, attributes, hattributes, attributeMap, -, children,
      hchildren, ifGuard, -, elseIfGuard, -, isElse, -, loop, hloop, staticIf, -, rfl⟩ := read
    refine .mk (ms.keptBy_extras declared) (fun a member => ?_) (fun l same => ?_) fun c child => ?_
    · obtain ⟨item, same⟩ := Json.exists_of_mem_optional_list hattributes a member
      exact Attribute.keptBy_of_ofJson? same
    · obtain ⟨item, same⟩ := Json.exists_of_optional? hloop l same
      exact Loop.keptBy_of_ofJson? same
    · obtain ⟨item, same⟩ := Json.exists_of_mem_optional_list hchildren c child
      exact ih same

/-- **Reading keeps each extra member once**, at every depth. -/
theorem wellKept_of_ofJson? {v : Json} {n : Node} (read : ofJson? v = some n) : n.WellKept :=
  wellKept_of_ofJsonWithin? read

/-- **Reading keeps extra members apart** from declared ones. -/
theorem apart_of_ofJson? {v : Json} {n : Node} (read : ofJson? v = some n) : n.Apart :=
  (wellKept_of_ofJson? read).apart

end Node

end Markup

end MiniTemplate
