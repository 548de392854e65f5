import MiniTemplate.Binary64.Basic

/-!
# JSON values

Objects are lists of members in the order of the text. A text may repeat a
member; `upsert` keeps a member at its first place with its last value, and
`Json.merged` does so throughout a value. Integers that fit 64 bits stay apart
from doubles: `1` and `1.0` are different numbers.
-/

namespace MiniTemplate

/-- A JSON number: an integer that fits 64 bits, signed or not, or a finite double. -/
inductive Json.Number where
  | int (value : Int)
  | float (value : Binary64)
  deriving DecidableEq, Repr, Inhabited

/-- A JSON value. -/
inductive Json where
  | null
  | bool (value : Bool)
  | num (value : Json.Number)
  | str (value : String)
  | arr (items : List Json)
  | obj (members : List (String × Json))
  deriving Repr, Inhabited, BEq

namespace Json

/-- The members of an object, in order. -/
abbrev Members := List (String × Json)

/-- The entries with `key` bound to `value`: in place if the key is there, else at
the end. -/
def upsert {α : Type} : List (String × α) → String → α → List (String × α)
  | [], key, value => [(key, value)]
  | (k, v) :: rest, key, value =>
    if k == key then (k, value) :: rest else (k, v) :: upsert rest key value

/-- The value of the first member named `key`. -/
def Members.get? (ms : Members) (key : String) : Option Json := List.lookup key ms

mutual

/-- The value with every object's repeated members merged: the last value, at the
place of the first. -/
def merged : Json → Json
  | .arr items => .arr (mergedItems items)
  | .obj members => .obj (mergedMembers [] members)
  | other => other

/-- Merges the members within each item. -/
def mergedItems : List Json → List Json
  | [] => []
  | v :: rest => v.merged :: mergedItems rest

/-- Merges the members of one object into those merged before. -/
def mergedMembers (before : Members) : Members → Members
  | [] => before
  | (k, v) :: rest => mergedMembers (upsert before k v.merged) rest

end

mutual

/-- How deep arrays and objects are nested. -/
def depth : Json → Nat
  | .arr items => depthItems items + 1
  | .obj members => depthMembers members + 1
  | _ => 0

/-- The greatest depth of the items. -/
def depthItems : List Json → Nat
  | [] => 0
  | v :: rest => max v.depth (depthItems rest)

/-- The greatest depth of the members' values. -/
def depthMembers : Members → Nat
  | [] => 0
  | (_, v) :: rest => max v.depth (depthMembers rest)

end

end Json

end MiniTemplate
