import MiniTemplate.Json.Numeral
import MiniTemplate.Text.Digit

/-!
# Reading JSON text

Strict JSON: no comments, no trailing commas, no raw control characters, no lone
surrogate escapes, and a bound on how deep arrays and objects nest. A malformed
text is `broken`, with the part of the value that precedes the flaw: containers
left open there hold what was read of them.
-/

namespace MiniTemplate.Json

/-- What a reader made of a text: a value and the text after it, or the part of a
value that precedes a flaw. -/
inductive Outcome (α : Type) where
  | done (value : α) (rest : List Char)
  | broken (part : Option α)
  deriving Repr

namespace Outcome

/-- Applies a function to the value, whole or partial. -/
def map {α β : Type} (f : α → β) : Outcome α → Outcome β
  | .done value rest => .done (f value) rest
  | .broken part => .broken (part.map f)

/-- A reader that either succeeds or has nothing to show. -/
def ofOption {α : Type} : Option (α × List Char) → Outcome α
  | some (value, rest) => .done value rest
  | none => .broken none

end Outcome

namespace Reader

open MiniTemplate.Text (hexValue?)

/-- The blanks of JSON. -/
def isSpace (c : Char) : Bool := c == ' ' || c == '\t' || c == '\n' || c == '\r'

/-- The text after its leading blanks. -/
def skip (cs : List Char) : List Char := cs.dropWhile isSpace

/-- The 16-bit unit spelled by four hexadecimal digits. -/
def unit? : List Char → Option (Nat × List Char)
  | a :: b :: c :: d :: rest => do
    return ((← hexValue? a) * 4096 + (← hexValue? b) * 256 + (← hexValue? c) * 16
      + (← hexValue? d), rest)
  | _ => none

/-- The character of a numeric escape, after its `u`; a leading surrogate takes
the escaped trailing surrogate behind it. -/
def numericEscape? (cs : List Char) : Option (Char × List Char) := do
  let (high, rest) ← unit? cs
  if high < 0xD800 ∨ 0xE000 ≤ high then return (Char.ofNat high, rest)
  else if 0xDC00 ≤ high then none
  else match rest with
    | '\\' :: 'u' :: rest =>
      let (low, rest) ← unit? rest
      if 0xDC00 ≤ low ∧ low < 0xE000 then
        return (Char.ofNat (0x10000 + (high - 0xD800) * 1024 + (low - 0xDC00)), rest)
      else none
    | _ => none

/-- The character of an escape, after its backslash. -/
def escape? : List Char → Option (Char × List Char)
  | '\x22' :: rest => some ('\x22', rest)
  | '\\' :: rest => some ('\\', rest)
  | '/' :: rest => some ('/', rest)
  | 'b' :: rest => some ('\x08', rest)
  | 'f' :: rest => some ('\x0c', rest)
  | 'n' :: rest => some ('\n', rest)
  | 'r' :: rest => some ('\r', rest)
  | 't' :: rest => some ('\t', rest)
  | 'u' :: rest => numericEscape? rest
  | _ => none

/-- The characters of a string up to its closing quote, and the text after that. -/
def stringBody? : Nat → List Char → Option (List Char × List Char)
  | 0, _ => none
  | fuel + 1, cs =>
    match cs with
    | [] => none
    | '\x22' :: rest => some ([], rest)
    | '\\' :: rest => do
      let (c, rest) ← escape? rest
      let (more, rest) ← stringBody? fuel rest
      return (c :: more, rest)
    | c :: rest =>
      if c.toNat < 0x20 then none
      else do
        let (more, rest) ← stringBody? fuel rest
        return (c :: more, rest)

/-- The string after an opening quote. -/
def string? (cs : List Char) : Option (String × List Char) :=
  (stringBody? (cs.length + 1) cs).map fun (body, rest) => (String.ofList body, rest)

/-- The items of an array up to its bracket, at least one. -/
def items (value : List Char → Outcome Json) : Nat → List Char → Outcome (List Json)
  | 0, _ => .broken none
  | fuel + 1, cs =>
    match value cs with
    -- What precedes a flaw is kept, since a fault in it is reported rather than the flaw.
    | .broken part => .broken (some part.toList)
    | .done v rest =>
      match skip rest with
      | ']' :: rest => .done [v] rest
      | ',' :: rest =>
        match items value fuel rest with
        | .done more rest => .done (v :: more) rest
        | .broken part => .broken (some (v :: part.getD []))
      | _ => .broken (some [v])

/-- The key of a member and its colon. -/
def key? (cs : List Char) : Option (String × List Char) :=
  match skip cs with
  | '\x22' :: rest => do
    let (key, rest) ← string? rest
    match skip rest with
    | ':' :: rest => return (key, rest)
    | _ => none
  | _ => none

/-- The members of an object up to its brace, at least one. -/
def members (value : List Char → Outcome Json) : Nat → List Char → Outcome Members
  | 0, _ => .broken none
  | fuel + 1, cs =>
    match key? cs with
    | none => .broken none
    | some (key, rest) =>
      match value rest with
      | .broken part => .broken (part.map fun v => [(key, v)])
      | .done v rest =>
        match skip rest with
        | '\x7d' :: rest => .done [(key, v)] rest
        | ',' :: rest =>
          match members value fuel rest with
          | .done more rest => .done ((key, v) :: more) rest
          | .broken part => .broken (some ((key, v) :: part.getD []))
        | _ => .broken (some [(key, v)])

/-- The array after its opening bracket. -/
def array (value : List Char → Outcome Json) (cs : List Char) : Outcome Json :=
  match skip cs with
  | ']' :: rest => .done (.arr []) rest
  | rest =>
    match items value rest.length rest with
    | .done vs rest => .done (.arr vs) rest
    | .broken part => .broken (some (.arr (part.getD [])))

/-- The object after its opening brace. -/
def object (value : List Char → Outcome Json) (cs : List Char) : Outcome Json :=
  match skip cs with
  | '\x7d' :: rest => .done (.obj []) rest
  | rest =>
    match members value rest.length rest with
    | .done ms rest => .done (.obj ms) rest
    | .broken part => .broken (some (.obj (part.getD [])))

/-- The value at the start of a text, with `depth` levels of nesting to spend. -/
def value : Nat → List Char → Outcome Json
  | depth, cs =>
    match skip cs with
    | 'n' :: 'u' :: 'l' :: 'l' :: rest => .done .null rest
    | 't' :: 'r' :: 'u' :: 'e' :: rest => .done (.bool true) rest
    | 'f' :: 'a' :: 'l' :: 's' :: 'e' :: rest => .done (.bool false) rest
    | '\x22' :: rest => (Outcome.ofOption (string? rest)).map .str
    | '[' :: rest =>
      match depth with
      | 0 => .broken none
      | depth + 1 => array (value depth) rest
    | '\x7b' :: rest =>
      match depth with
      | 0 => .broken none
      | depth + 1 => object (value depth) rest
    | rest => (Outcome.ofOption (Numeral.read? rest)).map .num

end Reader

/-- How deep arrays and objects may nest in a text. -/
def maxDepth : Nat := 127

/-- **The value of a text**, nothing but blanks around it. -/
def read (depth : Nat) (text : String) : Outcome Json :=
  match Reader.value depth text.toList with
  | .done v rest => if (Reader.skip rest).isEmpty then .done v [] else .broken (some v)
  | .broken part => .broken part

end MiniTemplate.Json
