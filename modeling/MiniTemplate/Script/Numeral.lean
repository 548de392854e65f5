import MiniTemplate.Binary64.Basic
import MiniTemplate.Script.Letter

/-!
# Numerals of the expression language

Decimal numerals with fraction and exponent, numerals in base two, eight and
sixteen, numerals with a leading zero (in base eight unless a digit forbids it),
and whole numerals with the suffix `n`. A single underscore may stand between two
digits. No numeral is followed at once by a digit or a letter, save where an
exponent follows a leading zero.
-/

namespace MiniTemplate.Script

open MiniTemplate.Text (isHex digitValue ofDigits)

/-- A numeral: a double, or an integer of any size. -/
inductive Numeral where
  | double (value : Binary64)
  | integer
  deriving DecidableEq, Repr

namespace Numeral

/-- The digits after the first one, underscores between them dropped. -/
def moreDigits? (isDigit : Char → Bool) : List Char → Option (List Char × List Char)
  | [] => some ([], [])
  | ['_'] => none
  | '_' :: d :: cs =>
    if isDigit d then (moreDigits? isDigit cs).map fun (ds, rest) => (d :: ds, rest) else none
  | c :: cs =>
    if isDigit c then (moreDigits? isDigit cs).map fun (ds, rest) => (c :: ds, rest)
    else some ([], c :: cs)

/-- Digits, at least one. -/
def digits? (isDigit : Char → Bool) : List Char → Option (List Char × List Char)
  | c :: cs =>
    if isDigit c then (moreDigits? isDigit cs).map fun (ds, rest) => (c :: ds, rest) else none
  | [] => none

/-- Digits, if one is there. -/
def optionalDigits? (cs : List Char) : Option (List Char × List Char) :=
  match cs with
  | c :: _ => if c.isDigit then digits? Char.isDigit cs else some ([], cs)
  | [] => some ([], [])

/-- The digits of an exponent and its sign, after the letter. -/
def exponent? : List Char → Option (Int × List Char)
  | '-' :: cs => (digits? Char.isDigit cs).map fun (ds, rest) => (-(ofDigits 10 ds : Int), rest)
  | '+' :: cs => (digits? Char.isDigit cs).map fun (ds, rest) => ((ofDigits 10 ds : Int), rest)
  | cs => (digits? Char.isDigit cs).map fun (ds, rest) => ((ofDigits 10 ds : Int), rest)

/-- The exponent, if one follows. -/
def optionalExponent? : List Char → Option (Int × List Char)
  | 'e' :: cs | 'E' :: cs => exponent? cs
  | cs => some (0, cs)

/-- The result, unless a digit or a letter follows at once. -/
def ended? (value : Numeral) (rest : List Char) : Option (Numeral × List Char) :=
  match rest with
  | c :: _ => if c.isDigit || isNameStart c then none else some (value, rest)
  | [] => some (value, [])

/-- The double of decimal digits, fraction digits and an exponent. -/
def decimal (whole fraction : List Char) (exponent : Int) : Numeral :=
  .double (Binary64.ofDecimal false (ofDigits 10 (whole ++ fraction)) (exponent - fraction.length))

/-- The fraction and exponent of a decimal numeral, after its point. -/
def fraction? (whole : List Char) (cs : List Char) : Option (Numeral × List Char) := do
  let (fraction, cs) ← optionalDigits? cs
  let (exponent, cs) ← optionalExponent? cs
  ended? (decimal whole fraction exponent) cs

/-- A decimal numeral that starts with its point, after that. -/
def pointed? (cs : List Char) : Option (Numeral × List Char) := do
  let (fraction, cs) ← digits? Char.isDigit cs
  let (exponent, cs) ← optionalExponent? cs
  ended? (decimal [] fraction exponent) cs

/-- A decimal numeral that starts with a digit other than zero. -/
def decimal? (cs : List Char) : Option (Numeral × List Char) := do
  let (whole, cs) ← digits? Char.isDigit cs
  match cs with
  | '.' :: cs => fraction? whole cs
  | 'n' :: cs => ended? .integer cs
  | cs =>
    let (exponent, cs) ← optionalExponent? cs
    ended? (decimal whole [] exponent) cs

/-- Appends a digit to a double, rounding the result. -/
def append (base : Nat) (x : Binary64) (digit : Nat) : Binary64 :=
  if x.isInfinite then x
  else
    let (num, den) := x.ratio
    Binary64.ofRatio false (num * base + digit * den) den

/-- The double of digits in a base: rounded once if they are written in no more
characters than always fit 64 bits, and after each digit otherwise. -/
def inBase (base fits width : Nat) (ds : List Char) : Numeral :=
  if width ≤ fits then .double (Binary64.ofNat (ofDigits base ds))
  else .double (ds.foldl (fun x d => append base x (digitValue d)) (Binary64.ofNat 0))

/-- A numeral with the digits of a base, after its letter. Its width counts the
underscores. -/
def based? (base fits : Nat) (cs : List Char) : Option (Numeral × List Char) := do
  let isDigit := fun c => isHex c && decide (digitValue c < base)
  let (ds, rest) ← digits? isDigit cs
  match rest with
  | 'n' :: rest => ended? .integer rest
  | rest => ended? (inBase base fits (cs.length - rest.length) ds) rest

/-- A numeral with a superfluous leading zero: in base eight, or decimal if it has
a digit eight or nine. In base eight the first zero does not count. -/
def zeroLed? (cs : List Char) : Option (Numeral × List Char) :=
  let (ds, rest) := cs.span Char.isDigit
  if ds.all fun d => decide (digitValue d < 8) then ended? (inBase 8 21 (ds.length - 1) ds) rest
  else match rest with
    | '.' :: rest => fraction? ds rest
    -- Here and after a single zero, nothing is asked of the character behind the exponent.
    | 'e' :: rest => do
      let (exponent, rest) ← exponent? rest
      return (decimal ds [] exponent, rest)
    | rest => ended? (decimal ds [] 0) rest

/-- **The numeral** at the start of a text that starts with a digit, or with a
point and a digit. -/
def scan? : List Char → Option (Numeral × List Char)
  | '.' :: cs => pointed? cs
  | '0' :: cs =>
    match cs with
    | 'b' :: cs | 'B' :: cs => based? 2 64 cs
    | 'o' :: cs | 'O' :: cs => based? 8 21 cs
    | 'x' :: cs | 'X' :: cs => based? 16 16 cs
    | 'e' :: cs | 'E' :: cs => do
      let (exponent, cs) ← exponent? cs
      return (decimal ['0'] [] exponent, cs)
    | '.' :: cs => fraction? ['0'] cs
    | 'n' :: cs => ended? .integer cs
    | c :: _ => if c.isDigit then zeroLed? ('0' :: cs) else ended? (decimal ['0'] [] 0) cs
    | [] => some (decimal ['0'] [] 0, [])
  | cs => decimal? cs

end Numeral

end MiniTemplate.Script
