import MiniTemplate.Binary64.Basic

/-!
# Shortest decimals

The shortest decimal of a double is the one with the fewest digits among those
that round to it, and of these the nearest to it. The reals that round to a
double form an interval, closed when its significand is even. For one digit, two
digits and so on, the two neighbours of the number on that decimal grid are
tested in exact arithmetic; the first grid with a hit gives the digits.
-/

namespace MiniTemplate

namespace Binary64

/-- A positive decimal `0.d₁d₂… * 10 ^ point`, its digits read as one number. -/
structure Decimal where
  digits : Nat
  point : Int
  deriving DecidableEq, Repr

/-- The reals that round to a positive number, over one denominator: the number
itself lies strictly between the ends. -/
structure Interval where
  low : Nat
  value : Nat
  high : Nat
  den : Nat
  closed : Bool
  deriving Repr

/-- The interval of reals that round to `x`. Below a power of two the gap to the
neighbour is half as wide. -/
def interval (x : Binary64) : Interval :=
  let p := x.parts
  let m := p.significand
  let below := if m = Nat.pow 2 52 ∧ 0 < p.exponent then 4 * m - 1 else 4 * m - 2
  let closed := m % 2 == 0
  if p.exponent < 1076 then ⟨below, 4 * m, 4 * m + 2, Nat.pow 2 (1076 - p.exponent), closed⟩
  else
    let s := Nat.pow 2 (p.exponent - 1076)
    ⟨below * s, 4 * m * s, (4 * m + 2) * s, 1, closed⟩

/-- Ten to an integer power, as a quotient. -/
def powerOfTen : Int → Nat × Nat
  | .ofNat e => (Nat.pow 10 e, 1)
  | .negSucc e => (1, Nat.pow 10 (e + 1))

/-- Whether `num / den < 10 ^ e`. -/
def belowPower (num den : Nat) (e : Int) : Bool :=
  let (a, b) := powerOfTen e
  decide (num * b < a * den)

/-- The first of `e`, `e + 1`, … whose power of ten exceeds `num / den`, within
`fuel` steps. -/
def orderFrom (num den : Nat) (e : Int) : Nat → Int
  | 0 => e
  | fuel + 1 => if belowPower num den e then e else orderFrom num den (e + 1) fuel

/-- The decimal order of `num / den`: the least `p` with `num / den < 10 ^ p`. The
binary order gives a start at most four below it. -/
def decimalOrder (num den : Nat) : Int :=
  let binary : Int := (num.log2 : Int) - (den.log2 : Int)
  orderFrom num den (Int.fdiv ((binary - 1) * 30103) 100000 - 1) 6

namespace Interval

/-- Whether `c * (a / b)` lies in the interval. -/
def holds (i : Interval) (c a b : Nat) : Bool :=
  let at' := c * a * i.den
  if i.closed then decide (i.low * b ≤ at' ∧ at' ≤ i.high * b)
  else decide (i.low * b < at' ∧ at' < i.high * b)

/-- The better of the two neighbours of the value on the grid of width `a / b`, if
one rounds back to it; a tie goes to the even digit. -/
def onGrid (i : Interval) (a b : Nat) : Option Nat :=
  let d := i.value * b / (i.den * a)
  let down := i.holds d a b
  let up := i.holds (d + 1) a b
  if down && up then
    let toDown := i.value * b - d * a * i.den
    let toUp := (d + 1) * a * i.den - i.value * b
    if toDown < toUp then some d
    else if toUp < toDown then some (d + 1)
    else if d % 2 = 0 then some d else some (d + 1)
  else if down then some d
  else if up then some (d + 1)
  else none

/-- The first grid, from `count` digits on, that holds a decimal of the interval. -/
def search (i : Interval) (order : Int) (count : Nat) : Nat → Decimal
  | 0 => ⟨i.value / i.den, order⟩
  | fuel + 1 =>
    let (a, b) := powerOfTen (order - count)
    match i.onGrid a b with
    -- Rounding up may carry into one more digit.
    | some d => if d = Nat.pow 10 count then ⟨1, order + 1⟩ else ⟨d, order⟩
    | none => i.search order (count + 1) fuel

end Interval

/-- **The shortest decimal** that reads back as a positive finite `x`. -/
def shortest (x : Binary64) : Decimal :=
  let i := x.interval
  i.search (decimalOrder i.value i.den) 1 17

/-! ## Text -/

/-- Where positional notation ends: it is used for the decimal exponents from
`least` up to, but not including, `limit`. -/
structure Layout where
  least : Int
  limit : Int

/-- Numbers from `0.00001` up to, but not including, `10 ^ 16` are written
positionally, all others with an exponent. -/
def layout : Layout := ⟨-5, 16⟩

/-- A run of zeros. -/
def zeros (n : Nat) : List Char := List.replicate n '0'

/-- Positional notation of the digits `ds` with the point after `point` of them;
at least one digit stands on either side of the point. -/
def positional (ds : List Char) (point : Int) : List Char :=
  match point with
  | .ofNat 0 => '0' :: '.' :: ds
  | .negSucc n => '0' :: '.' :: (zeros (n + 1) ++ ds)
  | .ofNat n =>
    if ds.length ≤ n then ds ++ zeros (n - ds.length) ++ ['.', '0']
    else ds.take n ++ '.' :: ds.drop n

/-- Scientific notation: one digit, the others after a point, and a signed exponent. -/
def scientific (ds : List Char) (exponent : Int) : List Char :=
  let mantissa := match ds with
    | [] => ['0']
    | [d] => [d]
    | d :: more => d :: '.' :: more
  let sign := if exponent < 0 then '-' else '+'
  mantissa ++ 'e' :: sign :: Nat.toDigits 10 exponent.natAbs

/-- The text of a finite number. -/
def text (x : Binary64) : String :=
  let sign := if x.isNegative then ['-'] else []
  let body :=
    if x.isZero then ['0', '.', '0']
    else
      let d := x.shortest
      let ds := Nat.toDigits 10 d.digits
      let exponent := d.point - 1
      if layout.least ≤ exponent ∧ exponent < layout.limit then positional ds d.point
      else scientific ds exponent
  String.ofList (sign ++ body)

end Binary64

end MiniTemplate
