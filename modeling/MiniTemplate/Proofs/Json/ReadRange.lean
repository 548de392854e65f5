import MiniTemplate.Json.Reader
import MiniTemplate.Proofs.Binary64.Range
import MiniTemplate.Proofs.Json.InRange

/-!
# Numbers that are read

Every value that JSON text stands for has its numbers in range: `inRange_of_read`. A literal of
digits alone is an integer only where it fits 64 bits. Any other is a double, and a double is
scaled up only where the product is finite; scaled down, it is divided by ten at least.
-/

namespace MiniTemplate.Json

/-! ## Literals -/

namespace Numeral

theorem maxWord_lt : maxWord < 2 ^ 64 := by decide

theorem fill_le {n : Nat} (ds : List Char) (fits : n ≤ maxWord) : (fill n ds).1 ≤ maxWord := by
  induction ds generalizing n with
  | nil => exact fits
  | cons d ds ih =>
    rw [fill]
    split
    · rename_i more
      exact ih more
    · exact fits

theorem power_eq {e : Nat} (most : e ≤ maxPower) :
    power e = Binary64.ofRatio false (1 * Nat.pow 10 e) 1 := by
  have single : Binary64.digitCount 1 = 1 := by decide
  unfold maxPower at most
  unfold power Binary64.ofDecimal
  rw [single]
  dsimp only
  rw [if_neg (by omega), if_neg (by omega)]

/-- A power of ten is eight at least, after rounding too. -/
theorem power_large {e : Nat} (positive : e ≠ 0) (most : e ≤ maxPower) :
    (power e).ratio.2 * 8 ≤ (power e).ratio.1 := by
  apply Binary64.ratio_large
  rw [power_eq most, Binary64.magnitude_ofRatio]
  apply Binary64.le_magnitudeOfRatio
  calc
    8 ≤ 10 := by decide
    _ ≤ Nat.pow 10 e := Nat.le_pow (Nat.pos_of_ne_zero positive)
    _ = 1 * Nat.pow 10 e := (Nat.one_mul _).symm

/-- **Scaling stays finite**, step by step. -/
theorem scale_finite {x y : Binary64} {e : Int} {fuel : Nat} (finite : x.isInfinite = false)
    (scaled : scale x e fuel = some y) : y.isInfinite = false := by
  induction fuel generalizing x e with
  | zero =>
    cases scaled
    exact finite
  | succ fuel ih =>
    rw [scale] at scaled
    split at scaled
    · rename_i most
      split at scaled
      · dsimp only at scaled
        split at scaled
        · cases scaled
        · rename_i product
          cases scaled
          simpa using product
      · rename_i negative
        cases scaled
        exact Binary64.isInfinite_div finite (power_large (by omega) most)
    · split at scaled
      · cases scaled
        exact finite
      · split at scaled
        · cases scaled
        · exact ih (Binary64.isInfinite_div finite (power_large (by decide) (Nat.le_refl _))) scaled

theorem double?_finite {l : Literal} {x : Binary64} (done : l.double? = some x) :
    x.isInfinite = false := by
  simp only [Literal.double?, Option.map_eq_some_iff] at done
  obtain ⟨y, scaled, rfl⟩ := done
  have word : (fill (fill 0 l.whole).1 (l.fraction.getD [])).1 ≤ maxWord :=
    fill_le _ (fill_le _ (Nat.zero_le _))
  have finite : y.isInfinite = false := by
    apply scale_finite _ scaled
    apply Binary64.isInfinite_ofNat
    exact Nat.lt_of_le_of_lt word maxWord_lt
  apply Binary64.isInfinite_withSign
  simpa [Binary64.isInfinite] using finite

theorem number?_inRange {l : Literal} {n : Number} (done : l.number? = some n) : n.InRange := by
  have double : l.double?.map Number.float = some n → n.InRange := by
    intro done
    obtain ⟨x, read, rfl⟩ := Option.map_eq_some_iff.1 done
    exact double?_finite read
  simp only [Literal.number?] at done
  split at done
  · split at done
    · rename_i word
      cases done
      simp only [Bool.and_eq_true, decide_eq_true_eq] at word
      have least := maxWord_lt
      simp only [Number.InRange]
      omega
    · split at done
      · rename_i word
        cases done
        simp only [Bool.and_eq_true, decide_eq_true_eq] at word
        have half : Nat.pow 2 63 = 9223372036854775808 := rfl
        simp only [Number.InRange]
        omega
      · exact double done
  · exact double done

theorem read?_inRange {cs rest : List Char} {n : Number} (done : read? cs = some (n, rest)) :
    n.InRange := by
  unfold read? at done
  split at done
  all_goals
    simp only [Option.bind_eq_bind, Option.bind_eq_some_iff, Option.pure_def, Option.some.injEq,
      Prod.mk.injEq] at done
    obtain ⟨⟨l, _⟩, -, _, number, rfl, -⟩ := done
    exact number?_inRange number

end Numeral

/-! ## Values -/

namespace Reader

/-- A reader of values whose numbers are in range. -/
def Ranged (value : List Char → Outcome Json) : Prop :=
  ∀ cs v rest, value cs = .done v rest → v.InRange

variable {value : List Char → Outcome Json}

theorem items_inRange (ranged : Ranged value) {fuel : Nat} {cs rest : List Char} {vs : List Json}
    (done : items value fuel cs = .done vs rest) : ∀ v ∈ vs, v.InRange := by
  induction fuel generalizing cs vs with
  | zero => cases done
  | succ fuel ih =>
    rw [items] at done
    split at done
    · cases done
    · rename_i v _ read
      have first := ranged _ _ _ read
      split at done
      · cases done
        simpa using first
      · split at done
        · rename_i more _ others
          cases done
          simpa using ⟨first, ih others⟩
        · cases done
      · cases done

theorem members_inRange (ranged : Ranged value) {fuel : Nat} {cs rest : List Char} {ms : Members}
    (done : members value fuel cs = .done ms rest) : ms.InRange := by
  induction fuel generalizing cs ms with
  | zero => cases done
  | succ fuel ih =>
    rw [members] at done
    split at done
    · cases done
    · split at done
      · cases done
      · rename_i v _ read
        have first := ranged _ _ _ read
        split at done
        · cases done
          simpa [Members.InRange] using first
        · split at done
          · rename_i more _ others
            cases done
            simpa [Members.InRange] using And.intro first (ih others)
          · cases done
        · cases done

theorem array_inRange (ranged : Ranged value) : Ranged (array value) := by
  intro cs v rest done
  unfold array at done
  split at done
  · cases done
    simp
  · split at done
    · rename_i vs _ read
      cases done
      exact .arr (items_inRange ranged read)
    · cases done

theorem object_inRange (ranged : Ranged value) : Ranged (object value) := by
  intro cs v rest done
  unfold object at done
  split at done
  · cases done
    simp
  · split at done
    · rename_i ms _ read
      cases done
      exact .obj (members_inRange ranged read)
    · cases done

theorem map_done {α β : Type} {f : α → β} {o : Outcome α} {b : β} {rest : List Char}
    (done : o.map f = .done b rest) : ∃ a, o = .done a rest ∧ f a = b := by
  cases o with
  | done a others =>
    cases done
    exact ⟨a, rfl, rfl⟩
  | broken part => cases done

theorem ofOption_done {α : Type} {o : Option (α × List Char)} {a : α} {rest : List Char}
    (done : Outcome.ofOption o = .done a rest) : o = some (a, rest) := by
  cases o with
  | none => cases done
  | some pair =>
    cases done
    rfl

theorem value_inRange_of_below {depth : Nat}
    (below : ∀ d, depth = d + 1 → Ranged (Reader.value d)) : Ranged (Reader.value depth) := by
  intro cs v rest done
  rw [Reader.value] at done
  split at done
  · cases done
    exact .null
  · cases done
    exact .bool true
  · cases done
    exact .bool false
  · obtain ⟨text, -, rfl⟩ := map_done done
    exact .str text
  · cases depth with
    | zero => cases done
    | succ d => exact array_inRange (below d rfl) _ _ _ done
  · cases depth with
    | zero => cases done
    | succ d => exact object_inRange (below d rfl) _ _ _ done
  · obtain ⟨n, read, rfl⟩ := map_done done
    exact .num (Numeral.read?_inRange (ofOption_done read))

/-- **Values have their numbers in range**, however deep they nest. -/
theorem value_inRange (depth : Nat) : Ranged (Reader.value depth) := by
  induction depth with
  | zero => exact value_inRange_of_below nofun
  | succ depth ih =>
    apply value_inRange_of_below
    intro d same
    cases same
    exact ih

end Reader

/-- **The value of a text has its numbers in range.** -/
theorem inRange_of_read {depth : Nat} {text : String} {v : Json} {rest : List Char}
    (done : read depth text = .done v rest) : v.InRange := by
  unfold read at done
  split at done
  · rename_i _ _ found
    split at done
    · cases done
      exact Reader.value_inRange depth _ _ _ found
    · cases done
  · cases done

end MiniTemplate.Json
