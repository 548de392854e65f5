import MiniTemplate.Json.Record
import MiniTemplate.Proofs.Itemwise

/-!
# Numbers in range

The numbers of a JSON value are integers of 64 bits and finite doubles: `Json.InRange` says so
of all of them. `Json.Keeps` is what a reader makes of such a value, and there is one lemma for
each way of putting readers together.
-/

namespace MiniTemplate.Json

variable {α : Type}

/-- A number that has a place among 64-bit integers, signed or not, or among finite doubles. -/
def Number.InRange : Number → Prop
  | .int i => -0x8000000000000000 ≤ i ∧ i < 0x10000000000000000
  | .float x => x.isInfinite = false

/-- **A value whose numbers are all in range.** -/
inductive InRange : Json → Prop where
  | null : InRange .null
  | bool (b : Bool) : InRange (.bool b)
  | num {n : Number} (fits : n.InRange) : InRange (.num n)
  | str (s : String) : InRange (.str s)
  | arr {items : List Json} (each : ∀ v ∈ items, InRange v) : InRange (.arr items)
  | obj {ms : Members} (each : ∀ m ∈ ms, InRange m.2) : InRange (.obj ms)

@[simp] theorem inRange_null : Json.null.InRange := .null

@[simp] theorem inRange_bool (b : Bool) : (Json.bool b).InRange := .bool b

@[simp] theorem inRange_str (s : String) : (Json.str s).InRange := .str s

@[simp] theorem inRange_num {n : Number} : (Json.num n).InRange ↔ n.InRange :=
  ⟨fun (.num fits) => fits, .num⟩

@[simp] theorem inRange_arr {items : List Json} : (Json.arr items).InRange ↔ ∀ v ∈ items, v.InRange :=
  ⟨fun (.arr each) => each, .arr⟩

@[simp] theorem inRange_obj {ms : Members} : (Json.obj ms).InRange ↔ ∀ m ∈ ms, m.2.InRange :=
  ⟨fun (.obj each) => each, .obj⟩

/-- Members whose values have all their numbers in range. -/
def Members.InRange (ms : Members) : Prop := ∀ m ∈ ms, m.2.InRange

theorem InRange.members {v : Json} {ms : Members} (fits : v.InRange) (object : v.members? = some ms) :
    ms.InRange := by
  cases fits with
  | obj each =>
    cases object
    exact each
  | null | bool | num | str | arr => cases object

theorem InRange.zip {items : List Json} (names : List String) (each : ∀ v ∈ items, v.InRange) :
    Members.InRange (names.zip items) := by
  intro m member
  exact each m.2 (List.of_mem_zip member).2

theorem InRange.named {v : Json} (names : List String) (fits : v.InRange) : (v.named names).InRange := by
  cases fits with
  | arr each =>
    rw [Json.named]
    split
    · exact .obj (InRange.zip names each)
    · exact .arr each
  | null => exact .null
  | bool b => exact .bool b
  | num fits => exact .num fits
  | str s => exact .str s
  | obj each => exact .obj each

/-! ## What a reader makes of values in range -/

/-- What is read from a value in range has a property. -/
def Keeps (read : Json → Option α) (P : α → Prop) : Prop :=
  ∀ v a, v.InRange → read v = some a → P a

theorem Keeps.list {read : Json → Option α} {P : α → Prop} (keeps : Keeps read P) :
    Keeps (list? read) fun as => ∀ a ∈ as, P a := by
  intro v as fits done
  cases fits with
  | arr each =>
    intro a member
    rw [list?] at done
    obtain ⟨item, found, read⟩ := exists_of_mem_mapM done member
    exact keeps item a (each item found) read
  | null | bool | num | str | obj => cases done

theorem Keeps.nullable {read : Json → Option α} {P : α → Prop} (keeps : Keeps read P) :
    Keeps (nullable? read) fun found => ∀ a, found = some a → P a := by
  rintro v found fits done a rfl
  cases v with
  | null => cases done
  | bool | num | str | arr | obj =>
    simp only [nullable?, Option.map_eq_some_iff, Option.some.injEq, exists_eq_right] at done
    exact keeps _ a fits done

namespace Members

theorem mem_of_values {ms : Members} {key : String} {v : Json} (found : v ∈ ms.values key) :
    (key, v) ∈ ms := by
  obtain ⟨m, kept, rfl⟩ := List.mem_map.1 found
  obtain ⟨member, same⟩ := List.mem_filter.1 kept
  obtain rfl : m.1 = key := beq_iff_eq.1 same
  exact member

variable {ms : Members} {key : String} {read : Json → Option α} {P : α → Prop}

theorem InRange.required (fits : ms.InRange) (keeps : Keeps read P) {a : α}
    (done : ms.required? key read = some a) : P a := by
  unfold Members.required? at done
  split at done
  · rename_i v found
    have member : (key, v) ∈ ms := mem_of_values (by simp [found])
    exact keeps v a (fits _ member) done
  · cases done

theorem InRange.optional (fits : ms.InRange) (keeps : Keeps read P) {found : Option α}
    (done : ms.optional? key read = some found) : ∀ a, found = some a → P a := by
  unfold Members.optional? at done
  split at done
  · cases done
    intro a absent
    cases absent
  · rename_i v single
    have member : (key, v) ∈ ms := mem_of_values (by simp [single])
    exact keeps.nullable v found (fits _ member) done
  · cases done

/-- What an optional list holds. -/
theorem InRange.optionalList (fits : ms.InRange) (keeps : Keeps read P) {found : Option (List α)}
    (done : ms.optional? key (list? read) = some found) : ∀ a ∈ found.getD [], P a := by
  have each := fits.optional keeps.list done
  cases found with
  | none => simp
  | some as => exact each as rfl

end Members

end MiniTemplate.Json
