import Mathlib.Data.List.Nodup
import MiniTemplate.Json.Record
import MiniTemplate.Proofs.Itemwise

/-!
# Merged members, and the order of members

Merging leaves alone what repeats no member: `merged_merged` says so of every merged
value, and `merged_obj` of an object by its own members; what it leaves alone is `Distinct`.
What a record keeps beyond the members that it declares is `Members.KeptBy`, which is all that
reading a record gives.
`Reordered` is equality up to the order of members, at every depth.
-/

namespace MiniTemplate.Json

/-! ## Members that do not repeat -/

theorem mergedItems_eq_map (items : List Json) : mergedItems items = items.map merged :=
  eq_map_of_cons rfl (fun v rest => by rw [mergedItems]) items

theorem upsert_of_not_mem {α : Type} {entries : List (String × α)} {key : String} (value : α)
    (new : key ∉ entries.map Prod.fst) : upsert entries key value = entries ++ [(key, value)] := by
  induction entries with
  | nil => rfl
  | cons entry entries ih =>
    obtain ⟨k, v⟩ := entry
    simp only [List.map_cons, List.mem_cons, not_or] at new
    have other : (k == key) = false := beq_false_of_ne (Ne.symm new.1)
    rw [upsert, other, ih new.2]
    rfl

theorem keys_upsert_of_mem {α : Type} {entries : List (String × α)} {key : String} (value : α)
    (known : key ∈ entries.map Prod.fst) :
    (upsert entries key value).map Prod.fst = entries.map Prod.fst := by
  induction entries with
  | nil => cases known
  | cons entry entries ih =>
    obtain ⟨k, v⟩ := entry
    rw [upsert]
    split
    · rfl
    · rename_i other
      have later : key ∈ entries.map Prod.fst := by
        rcases List.mem_cons.1 known with same | later
        · exact (other (beq_iff_eq.2 same.symm)).elim
        · exact later
      rw [List.map_cons, List.map_cons, ih later]

theorem eq_or_mem_of_mem_upsert {α : Type} {entries : List (String × α)} {key : String} {value : α}
    {m : String × α} (member : m ∈ upsert entries key value) : m = (key, value) ∨ m ∈ entries := by
  induction entries with
  | nil => exact Or.inl (List.mem_singleton.1 member)
  | cons entry entries ih =>
    obtain ⟨k, v⟩ := entry
    rw [upsert] at member
    split at member
    · rename_i same
      rcases List.mem_cons.1 member with rfl | member
      · exact Or.inl (by rw [beq_iff_eq.1 same])
      · exact Or.inr (by simp [member])
    · rcases List.mem_cons.1 member with rfl | member
      · exact Or.inr (by simp)
      · rcases ih member with new | member
        · exact Or.inl new
        · exact Or.inr (by simp [member])

theorem nodup_keys_upsert {α : Type} {entries : List (String × α)} (key : String) (value : α)
    (once : (entries.map Prod.fst).Nodup) : ((upsert entries key value).map Prod.fst).Nodup := by
  by_cases known : key ∈ entries.map Prod.fst
  · rwa [keys_upsert_of_mem value known]
  · rw [upsert_of_not_mem value known, List.map_append]
    exact once.append (List.nodup_singleton key) (List.disjoint_singleton.2 known)

/-- Merging gives each member once. -/
theorem nodup_keys_mergedMembers {before : Members} (ms : Members)
    (once : (before.map Prod.fst).Nodup) : ((mergedMembers before ms).map Prod.fst).Nodup := by
  induction ms generalizing before with
  | nil => rwa [mergedMembers]
  | cons m ms ih =>
    obtain ⟨k, v⟩ := m
    rw [mergedMembers]
    exact ih (nodup_keys_upsert k v.merged once)

/-- Members that do not repeat are merged one by one. -/
theorem mergedMembers_of_nodup {before ms : Members} (once : ((before ++ ms).map Prod.fst).Nodup) :
    mergedMembers before ms = before ++ ms.map fun m => (m.1, m.2.merged) := by
  induction ms generalizing before with
  | nil => rw [mergedMembers, List.map_nil, List.append_nil]
  | cons m ms ih =>
    obtain ⟨k, v⟩ := m
    have new : k ∉ before.map Prod.fst := by
      rw [List.map_append, List.map_cons] at once
      exact fun known => (List.nodup_append.1 once).2.2 k known k (by simp) rfl
    have onceAfter : ((before ++ [(k, v.merged)] ++ ms).map Prod.fst).Nodup := by
      simpa using once
    rw [mergedMembers, upsert_of_not_mem _ new, ih onceAfter, List.append_assoc]
    rfl

theorem merged_obj {ms : Members} (once : (ms.map Prod.fst).Nodup) :
    (Json.obj ms).merged = .obj (ms.map fun m => (m.1, m.2.merged)) := by
  rw [merged, mergedMembers_of_nodup (by simpa using once), List.nil_append]

/-! ## What is merged stays as it is -/

/-- Each member once, and no value with a member that repeats. -/
structure Members.Settled (ms : Members) : Prop where
  once : (ms.map Prod.fst).Nodup
  merged : ∀ m ∈ ms, m.2.merged = m.2

theorem Members.Settled.map_eq {ms : Members} (settled : ms.Settled) :
    ms.map (fun m => (m.1, m.2.merged)) = ms := by
  conv => rhs; rw [← List.map_id ms]
  refine List.map_congr_left fun m member => ?_
  rw [settled.merged m member]
  rfl

theorem Members.Settled.mergedMembers_eq {ms : Members} (settled : ms.Settled) :
    mergedMembers [] ms = ms := by
  rw [mergedMembers_of_nodup (by simpa using settled.once), List.nil_append, settled.map_eq]

theorem Members.Settled.filter {ms : Members} (settled : ms.Settled) (p : String × Json → Bool) :
    Members.Settled (ms.filter p) where
  once := settled.once.sublist ((List.filter_sublist (p := p)).map Prod.fst)
  merged m member := settled.merged m (List.mem_filter.1 member).1

mutual

/-- **Merging twice is merging once.** -/
theorem merged_merged : ∀ v : Json, v.merged.merged = v.merged
  | .null => rfl
  | .bool _ => rfl
  | .num _ => rfl
  | .str _ => rfl
  | .arr items => by rw [merged, merged, mergedItems_mergedItems items]
  | .obj ms => by
    have values := merged_of_mem_mergedMembers ms [] (by simp)
    have settled : Members.Settled (mergedMembers [] ms) :=
      ⟨nodup_keys_mergedMembers ms List.nodup_nil, values⟩
    rw [merged, merged, settled.mergedMembers_eq]

theorem mergedItems_mergedItems : ∀ items : List Json, mergedItems (mergedItems items) = mergedItems items
  | [] => rfl
  | v :: items => by rw [mergedItems, mergedItems, merged_merged v, mergedItems_mergedItems items]

theorem merged_of_mem_mergedMembers : ∀ (ms before : Members), (∀ b ∈ before, b.2.merged = b.2) →
    ∀ m ∈ mergedMembers before ms, m.2.merged = m.2
  | [], before, settled, m, member => settled m (by rwa [mergedMembers] at member)
  | (k, v) :: ms, before, settled, m, member => by
    rw [mergedMembers] at member
    refine merged_of_mem_mergedMembers ms (upsert before k v.merged) (fun b found => ?_) m member
    rcases eq_or_mem_of_mem_upsert found with rfl | found
    · exact merged_merged v
    · exact settled b found

end

theorem settled_mergedMembers (ms : Members) : Members.Settled (mergedMembers [] ms) :=
  ⟨nodup_keys_mergedMembers ms List.nodup_nil, merged_of_mem_mergedMembers ms [] (by simp)⟩

/-- The members of an object that merging leaves alone. -/
theorem settled_of_merged_obj {ms : Members} (same : (Json.obj ms).merged = .obj ms) : ms.Settled := by
  rw [merged, Json.obj.injEq] at same
  rw [← same]
  exact settled_mergedMembers ms

theorem key_of_mem_mergedMembers {before ms : Members} {m : String × Json}
    (member : m ∈ mergedMembers before ms) : (∃ b ∈ before, b.1 = m.1) ∨ ∃ n ∈ ms, n.1 = m.1 := by
  induction ms generalizing before with
  | nil =>
    rw [mergedMembers] at member
    exact Or.inl ⟨m, member, rfl⟩
  | cons n ms ih =>
    obtain ⟨k, v⟩ := n
    rw [mergedMembers] at member
    rcases ih member with ⟨b, found, same⟩ | ⟨n, found, same⟩
    · rcases eq_or_mem_of_mem_upsert found with rfl | kept
      · exact Or.inr ⟨(k, v), by simp, same⟩
      · exact Or.inl ⟨b, kept, same⟩
    · exact Or.inr ⟨n, by simp [found], same⟩

/-! ## Values that repeat no member -/

/-- **A value none of whose objects repeats a member.** -/
inductive Distinct : Json → Prop where
  | null : Distinct .null
  | bool (b : Bool) : Distinct (.bool b)
  | num (n : Number) : Distinct (.num n)
  | str (s : String) : Distinct (.str s)
  | arr {items : List Json} (each : ∀ v ∈ items, Distinct v) : Distinct (.arr items)
  | obj {ms : Members} (once : (ms.map Prod.fst).Nodup) (each : ∀ m ∈ ms, Distinct m.2) :
      Distinct (.obj ms)

mutual

/-- What merging leaves alone repeats no member. -/
theorem distinct_of_merged : ∀ v : Json, v.merged = v → v.Distinct
  | .null, _ => .null
  | .bool b, _ => .bool b
  | .num n, _ => .num n
  | .str s, _ => .str s
  | .arr items, same => by
    rw [merged, Json.arr.injEq] at same
    exact .arr (distinct_of_mergedItems items same)
  | .obj ms, same => by
    have settled := settled_of_merged_obj same
    exact .obj settled.once (distinct_of_settled ms settled.merged)

theorem distinct_of_mergedItems :
    ∀ items : List Json, mergedItems items = items → ∀ v ∈ items, v.Distinct
  | [], _, v, member => by cases member
  | item :: items, same, v, member => by
    rw [mergedItems, List.cons.injEq] at same
    have first := distinct_of_merged item same.1
    have later := distinct_of_mergedItems items same.2
    rcases List.mem_cons.1 member with rfl | member
    · exact first
    · exact later v member

theorem distinct_of_settled :
    ∀ ms : Members, (∀ m ∈ ms, m.2.merged = m.2) → ∀ m ∈ ms, m.2.Distinct
  | [], _, m, member => by cases member
  | (k, v) :: ms, settled, m, member => by
    have first := distinct_of_merged v (settled (k, v) List.mem_cons_self)
    have later := distinct_of_settled ms fun m found => settled m (List.mem_cons_of_mem _ found)
    rcases List.mem_cons.1 member with rfl | member
    · exact first
    · exact later m member

end

/-- Merging leaves alone what repeats no member. -/
theorem Distinct.merged_eq {v : Json} (distinct : v.Distinct) : v.merged = v := by
  induction distinct with
  | null | bool | num | str => rfl
  | arr _ ih =>
    rw [merged, mergedItems_eq_map, List.map_congr_left ih, List.map_id']
  | obj once _ ih =>
    have settled : Members.Settled _ := ⟨once, ih⟩
    rw [merged, settled.mergedMembers_eq]

theorem merged_arr_map {α : Type} {write : α → Json} {xs : List α}
    (each : ∀ x ∈ xs, (write x).merged = write x) :
    (Json.arr (xs.map write)).merged = .arr (xs.map write) := by
  rw [merged, mergedItems_eq_map, List.map_map]
  exact congrArg Json.arr (List.map_congr_left each)

/-! ## What a record keeps -/

namespace Members

theorem not_declared_of_mem_extras {ms : Members} {declared : List String} {m : String × Json}
    (member : m ∈ ms.extras declared) : m.1 ∉ declared := by
  rcases key_of_mem_mergedMembers member with ⟨b, found, -⟩ | ⟨n, found, same⟩
  · cases found
  · rw [← same]
    simpa using (List.mem_filter.1 found).2

/-- What a record keeps beyond the members that it declares. -/
structure KeptBy (declared : List String) (ms : Members) : Prop extends Settled ms where
  apart : ∀ m ∈ ms, m.1 ∉ declared

/-- **Reading a record keeps** each other member once, as it is when merged. -/
theorem keptBy_extras (ms : Members) (declared : List String) :
    KeptBy declared (ms.extras declared) where
  once := nodup_keys_mergedMembers _ List.nodup_nil
  merged := merged_of_mem_mergedMembers _ [] (by simp)
  apart _ member := not_declared_of_mem_extras member

theorem Settled.extras_eq {ms : Members} (settled : ms.Settled) (declared : List String) :
    ms.extras declared = ms.filter fun m => !declared.contains m.1 :=
  (settled.filter _).mergedMembers_eq

/-! ## The values of a member -/

@[simp] theorem values_nil (key : String) : values [] key = [] := rfl

@[simp] theorem values_cons (m : String × Json) (ms : Members) (key : String) :
    values (m :: ms) key = if m.1 = key then m.2 :: values ms key else values ms key := by
  unfold values
  by_cases same : m.1 = key <;> simp [same]

@[simp] theorem values_append (ms ns : Members) (key : String) :
    values (ms ++ ns) key = values ms key ++ values ns key := by
  unfold values
  rw [List.filter_append, List.map_append]

@[simp] theorem values_member {α : Type} (name key : String) (write : α → Json) (a : Option α) :
    values (member name write a) key = if name = key then (a.map write).toList else [] := by
  cases a with
  | none => simp [member]
  | some a => simp [member]

theorem values_map_merged (ms : Members) (key : String) :
    values (ms.map fun m => (m.1, m.2.merged)) key = (values ms key).map merged := by
  unfold values
  rw [List.filter_map, List.map_map, List.map_map]
  rfl

/-- An optional member is kept unless it is declared. -/
theorem filter_member {α : Type} (declared : List String) (name : String) (write : α → Json)
    (a : Option α) :
    (member name write a).filter (fun m => !declared.contains m.1) =
      if name ∈ declared then [] else member name write a := by
  cases a with
  | none => simp [member]
  | some a => by_cases known : name ∈ declared <;> simp [member, known]

theorem values_eq_nil_iff {ms : Members} {key : String} :
    values ms key = [] ↔ ∀ m ∈ ms, m.1 ≠ key := by
  rw [values, List.map_eq_nil_iff, List.filter_eq_nil_iff]
  simp only [beq_iff_eq, ne_eq]

theorem values_of_apart {declared : List String} {ms : Members} {key : String}
    (apart : ∀ m ∈ ms, m.1 ∉ declared) (known : key ∈ declared) : values ms key = [] := by
  rw [values_eq_nil_iff]
  rintro m member rfl
  exact apart m member known

/-- Merging adds no member. -/
theorem values_mergedMembers {ms : Members} {key : String} (absent : values ms key = []) :
    values (mergedMembers [] ms) key = [] := by
  rw [values_eq_nil_iff] at absent ⊢
  intro m member
  rcases key_of_mem_mergedMembers member with ⟨b, found, -⟩ | ⟨n, found, same⟩
  · cases found
  · rw [← same]
    exact absent n found

theorem mem_values {ms : Members} {m : String × Json} (member : m ∈ ms) : m.2 ∈ values ms m.1 :=
  List.mem_map_of_mem (List.mem_filter.2 ⟨member, beq_self_eq_true m.1⟩)

theorem required?_of_values {α : Type} {ms : Members} {key : String} {v : Json}
    (read : Json → Option α) (found : ms.values key = [v]) : ms.required? key read = read v := by
  rw [required?, found]

theorem optional?_of_absent {α : Type} {ms : Members} {key : String} (read : Json → Option α)
    (absent : ms.values key = []) : ms.optional? key read = some none := by
  rw [optional?, absent]

theorem optional?_of_single {α : Type} {ms : Members} {key : String} {v : Json}
    (read : Json → Option α) (found : ms.values key = [v]) : ms.optional? key read = nullable? read v := by
  rw [optional?, found]

/-- An optional member is read from what it was written as. -/
theorem optional?_of_values {α β : Type} {ms : Members} {key : String} {write : α → Json}
    {read : Json → Option β} {a : Option α} {back : α → β}
    (found : ms.values key = (a.map write).toList)
    (reads : ∀ x, a = some x → nullable? read (write x) = some (some (back x))) :
    ms.optional? key read = some (a.map back) := by
  rw [optional?, found]
  cases a with
  | none => rfl
  | some x => exact reads x rfl

theorem optional?_string_of_values {ms : Members} {key : String} {a : Option String}
    (found : ms.values key = (a.map Json.str).toList) : ms.optional? key string? = some a := by
  rw [optional?, found]
  cases a with
  | none => rfl
  | some text => rfl

end Members

/-! ## The order of members -/

/-- **Equality up to the order of members**, at every depth: `values` compares members in the
same order, and `order` then puts them in another one. -/
inductive Reordered : Json → Json → Prop where
  | refl (v : Json) : Reordered v v
  | arr {xs ys : List Json} (length : xs.length = ys.length)
      (items : ∀ p ∈ xs.zip ys, Reordered p.1 p.2) : Reordered (.arr xs) (.arr ys)
  | obj {ms ns ks : Members} (names : ms.map Prod.fst = ns.map Prod.fst)
      (values : ∀ p ∈ ms.zip ns, Reordered p.1.2 p.2.2) (order : ns.Perm ks) :
      Reordered (.obj ms) (.obj ks)

/-- Objects whose members are the same up to order are the same up to order when merged. -/
theorem reordered_merged_obj {ms ns ks : Members}
    (members : List.Forall₂ (fun m n => m.1 = n.1 ∧ Reordered m.2.merged n.2.merged) ms ns)
    (order : ns.Perm ks) (once : (ks.map Prod.fst).Nodup) :
    Reordered (Json.obj ms).merged (Json.obj ks).merged := by
  have names : ms.map Prod.fst = ns.map Prod.fst := by
    rw [← List.forall₂_eq_eq_eq, List.forall₂_map_left_iff, List.forall₂_map_right_iff]
    exact members.imp fun _ _ same => same.1
  have once' : (ns.map Prod.fst).Nodup := (order.map Prod.fst).nodup_iff.2 once
  rw [merged_obj once, merged_obj (names ▸ once')]
  refine .obj ?_ ?_ (order.map fun m => (m.1, m.2.merged))
  · rw [List.map_map, List.map_map]
    exact names
  · rw [List.zip_map]
    intro p member
    obtain ⟨⟨m, n⟩, pair, rfl⟩ := List.mem_map.1 member
    exact ((List.forall₂_iff_zip.1 members).2 pair).2

end MiniTemplate.Json
