import MiniTemplate.Json.Record

/-!
# Kinds of nodes, and what is wrong with a tree

Nodes are elements or text, told apart by a number. A value that is no tree has a
`Fault`: an unknown kind of node is named, anything else is just the wrong shape.
Members are looked at in their order, and the first fault counts.
-/

namespace MiniTemplate

open Json (Members)

/-- The kinds of nodes. -/
inductive NodeKind where
  | element
  | text
  deriving DecidableEq, Repr, Inhabited

/-- Why a value is no tree. -/
inductive Fault where
  | shape
  | nodeKind (code : Nat)
  deriving DecidableEq, Repr

/-- What is said about an unknown kind of node. -/
def Fault.message? : Fault → Option String
  | .shape => none
  | .nodeKind code => some s!"unsupported node type {code}"

namespace NodeKind

/-- The number of a kind. -/
def code : NodeKind → Nat
  | .element => 1
  | .text => 3

/-- A kind's JSON form. -/
def toJson (k : NodeKind) : Json := .num (.int k.code)

/-- A kind from its JSON form. -/
def ofJson? : Json → Option NodeKind
  | .num (.int 1) => some .element
  | .num (.int 3) => some .text
  | _ => none

/-- What is wrong with a kind: a number below 256 is an unknown kind. -/
def fault? (v : Json) : Option Fault :=
  match ofJson? v, v with
  | some _, _ => none
  | none, .num (.int i) => if 0 ≤ i ∧ i < 256 then some (.nodeKind i.toNat) else some .shape
  | none, _ => some .shape

end NodeKind

namespace Fault

/-- A fault of shape if a value cannot be read. -/
def ofRead {α : Type} : Option α → Option Fault
  | some _ => none
  | none => some .shape

/-- The first fault among the members of a record: in a member, by repeating a
declared member, or at the end by lacking a required one. -/
def first? (declared required : List String) (fault? : String → Json → Option Fault) :
    List String → Members → Option Fault
  | seen, [] => if required.all seen.contains then none else some .shape
  | seen, (key, v) :: rest =>
    if seen.contains key then some .shape
    else match fault? key v with
      | some fault => some fault
      | none =>
        first? declared required fault? (if declared.contains key then key :: seen else seen) rest

/-- The first fault among the items of an array that may be absent. -/
def inList? (fault? : Json → Option Fault) : Json → Option Fault
  | .null => none
  | .arr items => items.findSome? fault?
  | _ => some .shape

end Fault

end MiniTemplate
