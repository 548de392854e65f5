import Mathlib.Data.List.Forall2

/-!
# Lists taken item by item

A tree holds lists of trees, so a recursion on trees comes with one on lists that goes through the
items; `eq_map_of_cons` and `eq_flatMap_of_cons` say what such a recursion amounts to. A reader that
may fail goes through a list by `mapM`. `mapM_eq_some_iff` turns its success into a relation between
the items and what was read from them, and all that is said of lists that were read follows from
that relation.
-/

namespace MiniTemplate

variable {α β γ δ : Type}

/-! ## Recursions that go through a list -/

theorem eq_map_of_cons {whole : List α → List β} {each : α → β} (none : whole [] = [])
    (step : ∀ x xs, whole (x :: xs) = each x :: whole xs) (xs : List α) : whole xs = xs.map each := by
  induction xs with
  | nil => exact none
  | cons x xs ih => rw [step, ih, List.map_cons]

theorem eq_flatMap_of_cons {whole : List α → List β} {each : α → List β} (none : whole [] = [])
    (step : ∀ x xs, whole (x :: xs) = each x ++ whole xs) (xs : List α) :
    whole xs = xs.flatMap each := by
  induction xs with
  | nil => exact none
  | cons x xs ih => rw [step, ih, List.flatMap_cons]

/-! ## Readers that go through a list -/

section
variable {read : α → Option β} {xs : List α} {ys : List β}

/-- **A list is read iff each of its items is**, and what is read stands in the same order. -/
theorem mapM_eq_some_iff :
    xs.mapM read = some ys ↔ List.Forall₂ (fun x y => read x = some y) xs ys := by
  induction xs generalizing ys with
  | nil => simp [eq_comm]
  | cons x xs ih =>
    simp only [List.mapM_cons, Option.bind_eq_bind, Option.bind_eq_some_iff, Option.pure_def,
      Option.some.injEq, List.forall₂_cons_left_iff, ih]
    constructor
    · rintro ⟨y, first, rest, later, rfl⟩
      exact ⟨y, rest, first, later, rfl⟩
    · rintro ⟨y, rest, first, later, rfl⟩
      exact ⟨y, first, rest, later, rfl⟩

theorem getElem?_of_mapM (done : xs.mapM read = some ys) (i : Nat) : ys[i]? = xs[i]?.bind read := by
  rw [mapM_eq_some_iff] at done
  induction done generalizing i with
  | nil => rfl
  | cons first _ ih =>
    cases i with
    | zero => exact first.symm
    | succ i => exact ih i

/-- Whatever was read was read from an item. -/
theorem exists_of_mem_mapM (done : xs.mapM read = some ys) {y : β} (member : y ∈ ys) :
    ∃ x ∈ xs, read x = some y := by
  obtain ⟨i, here⟩ := List.mem_iff_getElem?.1 member
  rw [getElem?_of_mapM done i, Option.bind_eq_some_iff] at here
  obtain ⟨x, there, reads⟩ := here
  exact ⟨x, List.mem_of_getElem? there, reads⟩

/-- No item is left out. -/
theorem forall_of_mapM (done : xs.mapM read = some ys) : ∀ x ∈ xs, ∃ y, read x = some y := by
  rw [mapM_eq_some_iff] at done
  induction done with
  | nil => simp
  | cons first _ ih => exact List.forall_mem_cons.2 ⟨⟨_, first⟩, ih⟩

/-- Lists that correspond item by item still do so when each item is spread out. -/
theorem forall₂_flatMap_of_mapM {R : γ → δ → Prop} {first : α → List γ} {second : β → List δ}
    (each : ∀ x y, read x = some y → List.Forall₂ R (first x) (second y))
    (done : xs.mapM read = some ys) : List.Forall₂ R (xs.flatMap first) (ys.flatMap second) := by
  rw [mapM_eq_some_iff] at done
  induction done with
  | nil => exact .nil
  | cons reads _ ih =>
    rw [List.flatMap_cons, List.flatMap_cons]
    exact List.rel_append (each _ _ reads) ih

end

/-- Items are read back, each as it should be, iff each of them is. -/
theorem mapM_map_eq_some_map_iff {write : α → β} (read : β → Option γ) (back : α → γ) {xs : List α} :
    (xs.map write).mapM read = some (xs.map back) ↔ ∀ x ∈ xs, read (write x) = some (back x) := by
  rw [mapM_eq_some_iff, List.forall₂_map_left_iff, List.forall₂_map_right_iff, List.forall₂_same]

end MiniTemplate
