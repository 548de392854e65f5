import MiniTemplate.Error
import MiniTemplate.Interpolation
import MiniTemplate.Script.Parse

/-!
# The front end of the pass

The pass asks two questions of a front end: which tree a source stands for, and
what a text holds. `Trace` is the result of asking, with all that was asked, in
order, up to the first error.
-/

namespace MiniTemplate.Pass

open Script (Expr)

/-- What the pass asks. -/
inductive Call where
  | parse (source : String)
  | detect (raw : String)
  deriving DecidableEq, Repr

/-- A result, and what was asked for it. -/
structure Trace (α : Type) where
  calls : List Call
  result : Except Error α

namespace Trace

/-- A result without any question. -/
def pure {α : Type} (a : α) : Trace α := ⟨[], .ok a⟩

/-- One trace after another; an error ends it. -/
def bind {α β : Type} (t : Trace α) (f : α → Trace β) : Trace β :=
  match t.result with
  | .ok a =>
    let u := f a
    ⟨t.calls ++ u.calls, u.result⟩
  | .error e => ⟨t.calls, .error e⟩

instance : Monad Trace where
  pure := pure
  bind := bind

end Trace

/-- What answers the questions of the pass. -/
structure Frontend where
  parser : String → Except Error Expr
  detector : String → Binding

namespace Frontend

/-- The tree of a source, in the language of expressions. -/
def parseSource (source : String) : Except Error Expr :=
  match Script.parse source with
  | .ok tree => .ok tree
  | .error .malformed => .error (.expression source "the source is not an expression")
  | .error (.unsupported construct) => .error (.unsupported construct.label source)

/-- The front end for expressions between double braces. -/
def standard : Frontend := { parser := parseSource, detector := MiniTemplate.detect }

/-- Asks for the tree of a source. -/
def parse (f : Frontend) (source : String) : Trace Expr := ⟨[.parse source], f.parser source⟩

/-- Asks what a text holds. -/
def detect (f : Frontend) (raw : String) : Trace Binding := ⟨[.detect raw], .ok (f.detector raw)⟩

/-- The tree of a text that holds an expression; none if the text is literal. -/
def extract (f : Frontend) (raw : String) : Trace (Option Expr) := do
  let binding ← f.detect raw
  if binding.hasBinding then return some (← f.parse binding.normalized) else return none

/-- The tree of an optional source; none if it is absent. -/
def parseOptional (f : Frontend) : Option String → Trace (Option Expr)
  | some source => do return some (← f.parse source)
  | none => return none

/-- The trees of several sources. -/
def parseAll (f : Frontend) : List String → Trace (List Expr)
  | [] => return []
  | source :: rest => do
    let tree ← f.parse source
    return tree :: (← f.parseAll rest)

end Frontend

end MiniTemplate.Pass
