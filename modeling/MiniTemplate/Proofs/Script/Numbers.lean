import MiniTemplate.Proofs.Binary64.Range
import MiniTemplate.Proofs.Json.InRange
import MiniTemplate.Proofs.Script.Written

/-!
# The numbers of an expression tree

A tree is read back as it is iff its numbers are finite, which is `Expr.written_eq_iff`. A tree
that was read from a value whose numbers are in range has finite numbers only.
-/

namespace MiniTemplate.Script

open Json (Members Keeps)

/-! ## The numbers of a tree -/

/-- The number of a literal that is one. -/
def Literal.numbers : Literal → List Binary64
  | .number x => [x]
  | _ => []

mutual

/-- **The numbers of a tree**, from left to right. -/
def Expr.numbers : Expr → List Binary64
  | .identifier _ => []
  | .literal value => value.numbers
  | .template _ expressions => numbersAll expressions
  | .array elements => elementNumbers elements
  | .object properties => propertyNumbers properties
  | .member object property _ _ => object.numbers ++ property.numbers
  | .call callee arguments _ => callee.numbers ++ numbersAll arguments
  | .unary _ argument => argument.numbers
  | .binary _ left right | .logical _ left right => left.numbers ++ right.numbers
  | .conditional test consequent alternate =>
    test.numbers ++ (consequent.numbers ++ alternate.numbers)
  | .sequence expressions => numbersAll expressions
  | .spread argument => argument.numbers

/-- The numbers of several trees. -/
def numbersAll : List Expr → List Binary64
  | [] => []
  | e :: rest => e.numbers ++ numbersAll rest

/-- The numbers of an array's elements. -/
def elementNumbers : List (Option Expr) → List Binary64
  | [] => []
  | none :: rest => elementNumbers rest
  | some e :: rest => e.numbers ++ elementNumbers rest

/-- The numbers of an object's members. -/
def propertyNumbers : List (Property Expr) → List Binary64
  | [] => []
  | .pair key value _ :: rest => key.numbers ++ (value.numbers ++ propertyNumbers rest)
  | .spread argument :: rest => argument.numbers ++ propertyNumbers rest

end

/-- Numbers that are all finite. -/
def AllFinite (xs : List Binary64) : Prop := ∀ x ∈ xs, x.isInfinite = false

instance (xs : List Binary64) : Decidable (AllFinite xs) :=
  inferInstanceAs (Decidable (∀ x ∈ xs, x.isInfinite = false))

@[simp] theorem allFinite_nil : AllFinite [] := by
  intro x member
  cases member

@[simp] theorem allFinite_append {xs ys : List Binary64} :
    AllFinite (xs ++ ys) ↔ AllFinite xs ∧ AllFinite ys := by
  unfold AllFinite
  simp only [List.mem_append, or_imp, forall_and]

/-- Trees all of whose numbers are finite. -/
def Expr.Finite (e : Expr) : Prop := AllFinite e.numbers

instance (e : Expr) : Decidable e.Finite := inferInstanceAs (Decidable (AllFinite e.numbers))

theorem allFinite_numbersAll {es : List Expr} : AllFinite (numbersAll es) ↔ ∀ e ∈ es, e.Finite := by
  induction es with
  | nil => simp [numbersAll]
  | cons e es ih => simp [numbersAll, ih, Expr.Finite]

theorem allFinite_elementNumbers {es : List (Option Expr)} :
    AllFinite (elementNumbers es) ↔ ∀ e, some e ∈ es → e.Finite := by
  induction es with
  | nil => simp [elementNumbers]
  | cons e es ih =>
    cases e with
    | none => simp [elementNumbers, ih]
    | some e => simp [elementNumbers, ih, Expr.Finite]

/-- The numbers of a member of an object. -/
def Property.numbers : Property Expr → List Binary64
  | .pair key value _ => key.numbers ++ value.numbers
  | .spread argument => argument.numbers

theorem allFinite_propertyNumbers {ps : List (Property Expr)} :
    AllFinite (propertyNumbers ps) ↔ ∀ p ∈ ps, AllFinite p.numbers := by
  induction ps with
  | nil => simp [propertyNumbers]
  | cons p ps ih => cases p <;> simp [propertyNumbers, Property.numbers, ih, and_assoc]

/-! ## Trees that are read back as they are -/

theorem Literal.written_eq_iff (l : Literal) : l.written = l ↔ AllFinite l.numbers := by
  cases l with
  | number x => by_cases infinite : x.isInfinite <;> simp [written, numbers, AllFinite, infinite]
  | bool b => simp [written, numbers]
  | string s => simp [written, numbers]
  | null => simp [written, numbers]

mutual

/-- **A tree is read back as it is iff its numbers are finite.** -/
theorem Expr.written_eq_iff : ∀ e : Expr, e.written = e ↔ e.Finite
  | .identifier _ => by simp [Expr.written, Expr.Finite, Expr.numbers]
  | .literal value => by simp [Expr.written, Expr.Finite, Expr.numbers, value.written_eq_iff]
  | .template _ expressions => by
    simp [Expr.written, Expr.Finite, Expr.numbers, writtenAll_eq_iff expressions]
  | .array elements => by
    simp [Expr.written, Expr.Finite, Expr.numbers, writtenElements_eq_iff elements]
  | .object properties => by
    simp [Expr.written, Expr.Finite, Expr.numbers, writtenProperties_eq_iff properties]
  | .member object property _ _ => by
    have first := object.written_eq_iff
    have second := property.written_eq_iff
    simp_all [Expr.written, Expr.Finite, Expr.numbers]
  | .call callee arguments _ => by
    have first := callee.written_eq_iff
    simp_all [Expr.written, Expr.Finite, Expr.numbers, writtenAll_eq_iff arguments]
  | .unary _ argument => by
    have first := argument.written_eq_iff
    simp_all [Expr.written, Expr.Finite, Expr.numbers]
  | .binary _ left right => by
    have first := left.written_eq_iff
    have second := right.written_eq_iff
    simp_all [Expr.written, Expr.Finite, Expr.numbers]
  | .logical _ left right => by
    have first := left.written_eq_iff
    have second := right.written_eq_iff
    simp_all [Expr.written, Expr.Finite, Expr.numbers]
  | .conditional test consequent alternate => by
    have first := test.written_eq_iff
    have second := consequent.written_eq_iff
    have third := alternate.written_eq_iff
    simp_all [Expr.written, Expr.Finite, Expr.numbers]
  | .sequence expressions => by
    simp [Expr.written, Expr.Finite, Expr.numbers, writtenAll_eq_iff expressions]
  | .spread argument => by
    have first := argument.written_eq_iff
    simp_all [Expr.written, Expr.Finite, Expr.numbers]

theorem writtenAll_eq_iff : ∀ es : List Expr, writtenAll es = es ↔ AllFinite (numbersAll es)
  | [] => by simp [writtenAll, numbersAll]
  | e :: es => by
    have first := e.written_eq_iff
    simp_all [writtenAll, numbersAll, Expr.Finite, writtenAll_eq_iff es]

theorem writtenElements_eq_iff :
    ∀ es : List (Option Expr), writtenElements es = es ↔ AllFinite (elementNumbers es)
  | [] => by simp [writtenElements, elementNumbers]
  | none :: es => by simp [writtenElements, elementNumbers, writtenElements_eq_iff es]
  | some e :: es => by
    have first := e.written_eq_iff
    simp_all [writtenElements, elementNumbers, Expr.Finite, writtenElements_eq_iff es]

theorem writtenProperties_eq_iff :
    ∀ ps : List (Property Expr), writtenProperties ps = ps ↔ AllFinite (propertyNumbers ps)
  | [] => by simp [writtenProperties, propertyNumbers]
  | .pair key value _ :: ps => by
    have first := key.written_eq_iff
    have second := value.written_eq_iff
    simp_all [writtenProperties, propertyNumbers, Expr.Finite, writtenProperties_eq_iff ps,
      and_assoc]
  | .spread argument :: ps => by
    have first := argument.written_eq_iff
    simp_all [writtenProperties, propertyNumbers, Expr.Finite, writtenProperties_eq_iff ps]

end

/-! ## Trees that were read -/

theorem Literal.keeps_finite : Keeps Literal.ofJson? fun l => AllFinite l.numbers := by
  intro v l fits done
  cases fits with
  | null =>
    cases done
    exact allFinite_nil
  | bool b =>
    cases done
    exact allFinite_nil
  | str s =>
    cases done
    exact allFinite_nil
  | num fits =>
    rename_i n
    cases n with
    | int i =>
      cases done
      simpa [numbers, AllFinite] using Binary64.isInfinite_ofInt fits.1 fits.2
    | float x =>
      cases done
      have finite : x.isInfinite = false := fits
      simpa [numbers, AllFinite] using finite
  | arr => cases done
  | obj => cases done

theorem variant?_inRange {variants : List (String × List String)} {v : Json} {variant : String}
    {ms : Members} (fits : v.InRange) (done : variant? variants v = some (variant, ms)) :
    ms.InRange := by
  unfold variant? at done
  split at done
  · simp only [Option.bind_eq_bind, Option.bind_eq_some_iff, Option.pure_def, Option.some.injEq,
      Prod.mk.injEq] at done
    obtain ⟨_, -, -, rfl⟩ := done
    cases fits with
    | obj each => exact each
  · simp only [Option.bind_eq_bind, Option.bind_eq_some_iff] at done
    obtain ⟨names, -, done⟩ := done
    split at done
    · cases done
      cases fits with
      | arr each => exact Json.InRange.zip names fun v member => each v (List.mem_cons_of_mem _ member)
    · cases done
  · cases done

section
variable {read : Json → Option Expr} (keeps : Keeps read Expr.Finite)
include keeps

theorem Property.keeps_finite : Keeps (Property.ofJson? read) fun p => AllFinite p.numbers := by
  intro v p fits done
  simp only [Property.ofJson?, Option.bind_eq_bind, Option.bind_eq_some_iff] at done
  obtain ⟨⟨variant, ms⟩, found, done⟩ := done
  have each := variant?_inRange fits found
  dsimp only at done
  split at done
  · simp only [Option.bind_eq_some_iff, Option.pure_def, Option.some.injEq] at done
    obtain ⟨key, hkey, value, hvalue, _, -, rfl⟩ := done
    exact allFinite_append.2 ⟨each.required keeps hkey, each.required keeps hvalue⟩
  · simp only [Option.bind_eq_some_iff, Option.pure_def, Option.some.injEq] at done
    obtain ⟨argument, hargument, rfl⟩ := done
    exact each.required keeps hargument
  · cases done

theorem Expr.finite_of_ofMembers? {variant : String} {ms : Members} {e : Expr} (fits : ms.InRange)
    (done : Expr.ofMembers? read variant ms = some e) : e.Finite := by
  unfold Expr.ofMembers? at done
  split at done <;>
    simp only [Option.bind_eq_bind, Option.bind_eq_some_iff, Option.pure_def, Option.some.injEq,
      reduceCtorEq] at done
  case h_1 =>
    obtain ⟨name, -, rfl⟩ := done
    exact allFinite_nil
  case h_2 =>
    obtain ⟨value, hvalue, rfl⟩ := done
    exact fits.required Literal.keeps_finite hvalue
  case h_3 =>
    obtain ⟨quasis, -, expressions, hexpressions, rfl⟩ := done
    exact allFinite_numbersAll.2 (fits.required keeps.list hexpressions)
  case h_4 =>
    obtain ⟨elements, helements, rfl⟩ := done
    refine allFinite_elementNumbers.2 fun e member => ?_
    exact fits.required keeps.nullable.list helements (some e) member e rfl
  case h_5 =>
    obtain ⟨properties, hproperties, rfl⟩ := done
    exact allFinite_propertyNumbers.2 (fits.required (Property.keeps_finite keeps).list hproperties)
  case h_6 =>
    obtain ⟨object, hobject, property, hproperty, _, -, _, -, rfl⟩ := done
    exact allFinite_append.2 ⟨fits.required keeps hobject, fits.required keeps hproperty⟩
  case h_7 =>
    obtain ⟨callee, hcallee, arguments, harguments, _, -, rfl⟩ := done
    refine allFinite_append.2 ⟨fits.required keeps hcallee, ?_⟩
    exact allFinite_numbersAll.2 (fits.required keeps.list harguments)
  case h_8 =>
    obtain ⟨_, -, argument, hargument, rfl⟩ := done
    show argument.Finite
    exact fits.required keeps hargument
  case h_9 =>
    obtain ⟨_, -, left, hleft, right, hright, rfl⟩ := done
    exact allFinite_append.2 ⟨fits.required keeps hleft, fits.required keeps hright⟩
  case h_10 =>
    obtain ⟨_, -, left, hleft, right, hright, rfl⟩ := done
    exact allFinite_append.2 ⟨fits.required keeps hleft, fits.required keeps hright⟩
  case h_11 =>
    obtain ⟨test, htest, consequent, hconsequent, alternate, halternate, rfl⟩ := done
    refine allFinite_append.2 ⟨fits.required keeps htest, ?_⟩
    exact allFinite_append.2 ⟨fits.required keeps hconsequent, fits.required keeps halternate⟩
  case h_12 =>
    obtain ⟨expressions, hexpressions, rfl⟩ := done
    exact allFinite_numbersAll.2 (fits.required keeps.list hexpressions)
  case h_13 =>
    obtain ⟨argument, hargument, rfl⟩ := done
    show argument.Finite
    exact fits.required keeps hargument

end

theorem Expr.keeps_finiteWithin (bound : Nat) : Keeps (Expr.ofJsonWithin? bound) Expr.Finite := by
  induction bound with
  | zero =>
    intro v e _ done
    cases done
  | succ bound ih =>
    intro v e fits done
    simp only [Expr.ofJsonWithin?, Option.bind_eq_bind, Option.bind_eq_some_iff] at done
    obtain ⟨⟨variant, ms⟩, found, done⟩ := done
    exact Expr.finite_of_ofMembers? ih (variant?_inRange fits found) done

/-- **A tree that was read has finite numbers.** -/
theorem Expr.keeps_finite : Keeps Expr.ofJson? Expr.Finite :=
  fun v e fits done => Expr.keeps_finiteWithin (v.depth + 1) v e fits done

end MiniTemplate.Script
