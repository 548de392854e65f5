import MiniTemplate.Json.Basic
import MiniTemplate.Text.Digit

/-!
# Number literals

A literal is an optional sign, digits without a superfluous leading zero, an
optional fraction and an optional exponent. A literal of digits alone is an
integer when it fits 64 bits, unsigned or signed; every other literal is a
double. A double is read as the leading digits that fit an unsigned 64-bit word,
multiplied or divided by one power of ten, with a rounding after each step. A
literal beyond the greatest double has no value.
-/

namespace MiniTemplate.Json.Numeral

open MiniTemplate.Text (digitValue ofDigits)

/-- The greatest unsigned 64-bit word. -/
def maxWord : Nat := Nat.pow 2 64 - 1

/-- Appends digits to `n` as long as the result fits a word; the digits left over
come second. -/
def fill (n : Nat) : List Char → Nat × List Char
  | [] => (n, [])
  | d :: ds =>
    if n * 10 + digitValue d ≤ maxWord then fill (n * 10 + digitValue d) ds else (n, d :: ds)

/-- The greatest exponent of ten that is a double. -/
def maxPower : Nat := 308

/-- The double nearest to a power of ten. -/
def power (e : Nat) : Binary64 := Binary64.ofDecimal false 1 e

/-- `x * 10 ^ e` for `x` without sign, one step per power that is a double; none
if the product is too large. -/
def scale (x : Binary64) (e : Int) : Nat → Option Binary64
  | 0 => some x
  | fuel + 1 =>
    if e.natAbs ≤ maxPower then
      if 0 ≤ e then
        let product := x.mul (power e.natAbs)
        if product.isInfinite then none else some product
      else some (x.div (power e.natAbs))
    else if x.isZero then some x
    else if 0 ≤ e then none
    else scale (x.div (power maxPower)) (e + maxPower) fuel

/-- A literal taken apart: digits before the point, digits after it, and the exponent. -/
structure Literal where
  negative : Bool
  whole : List Char
  fraction : Option (List Char)
  exponent : Option Int

/-- The double of a literal. -/
def Literal.double? (l : Literal) : Option Binary64 :=
  let (n, skipped) := fill 0 l.whole
  -- Digits that no longer fit are dropped and not rounded; those before the point still count
  -- as places.
  let (m, left) := fill n (l.fraction.getD [])
  let places : Int := (l.fraction.getD []).length - left.length
  let e : Int := skipped.length - places + l.exponent.getD 0
  (scale (Binary64.ofNat m) e 8).map fun x => Binary64.withSign l.negative x.magnitude

/-- The number of a literal. -/
def Literal.number? (l : Literal) : Option Number :=
  let n := ofDigits 10 l.whole
  if l.fraction.isNone && l.exponent.isNone then
    if !l.negative && decide (n ≤ maxWord) then some (.int n)
    -- A negative zero is no integer: it has to keep its sign.
    else if l.negative && decide (0 < n ∧ n ≤ Nat.pow 2 63) then some (.int (-n))
    else l.double?.map .float
  else l.double?.map .float

/-- The digits before the point: a single zero, or digits that start with another. -/
def whole? (cs : List Char) : Option (List Char × List Char) :=
  match cs.span Char.isDigit with
  | ([], _) => none
  | ('0' :: _ :: _, _) => none
  | split => some split

/-- The digits after a point, if one follows. -/
def fraction? : List Char → Option (Option (List Char) × List Char)
  | '.' :: cs =>
    match cs.span Char.isDigit with
    | ([], _) => none
    | (ds, rest) => some (some ds, rest)
  | cs => some (none, cs)

/-- The digits of an exponent after its sign. -/
def exponentDigits? (negative : Bool) (cs : List Char) : Option (Option Int × List Char) :=
  match cs.span Char.isDigit with
  | ([], _) => none
  | (ds, rest) =>
    let e : Int := ofDigits 10 ds
    some (some (if negative then -e else e), rest)

/-- The exponent, if one follows. -/
def exponent? : List Char → Option (Option Int × List Char)
  | 'e' :: '-' :: cs | 'E' :: '-' :: cs => exponentDigits? true cs
  | 'e' :: '+' :: cs | 'E' :: '+' :: cs => exponentDigits? false cs
  | 'e' :: cs | 'E' :: cs => exponentDigits? false cs
  | cs => some (none, cs)

/-- A literal without its sign, at the start of a text. -/
def unsigned? (negative : Bool) (cs : List Char) : Option (Literal × List Char) := do
  let (whole, cs) ← whole? cs
  let (fraction, cs) ← fraction? cs
  let (exponent, cs) ← exponent? cs
  return (⟨negative, whole, fraction, exponent⟩, cs)

/-- The number at the start of a text, and the text after it. -/
def read? (cs : List Char) : Option (Number × List Char) := do
  let (literal, rest) ← match cs with
    | '-' :: cs => unsigned? true cs
    | cs => unsigned? false cs
  return (← literal.number?, rest)

end MiniTemplate.Json.Numeral
