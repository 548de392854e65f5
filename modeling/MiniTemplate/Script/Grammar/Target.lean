import MiniTemplate.Script.Grammar.Basic

/-!
# Assignment targets

An assignment is read as an expression first; only its operator shows that the
left side is a target. `Phrase.target?` decides whether a phrase is one, and how
many initialisers of objects it claims.
-/

namespace MiniTemplate.Script

namespace Phrase

/-- Whether a phrase names one place to assign to: a name or a member, with or
without parentheses. -/
def isPlace : Phrase → Bool
  | .name _ | .member .. | .index .. | .foreign .hiddenMember => true
  | .parens body => body.isPlace
  | _ => false

mutual

/-- The number of initialisers that the target of an assignment claims; none if the
phrase is no target. -/
def target? : Phrase → Option Nat
  | .array items comma => targetItems? comma items
  | .object entries comma => targetEntries? comma entries
  | p => if p.isPlace then some 0 else none

/-- The same for a part of a pattern, which may have a default of its own. -/
def targetPart? : Phrase → Option Nat
  | .array items comma => targetItems? comma items
  | .object entries comma => targetEntries? comma entries
  | .foreign .assignment => some 0
  | p => if p.isPlace then some 0 else none

/-- The same for the items of an array; only the last may take the rest. -/
def targetItems? (comma : Bool) : List (Item Phrase) → Option Nat
  | [] => some 0
  | .hole :: rest => targetItems? comma rest
  | .plain p :: rest => do
    return (← p.targetPart?) + (← targetItems? comma rest)
  | .spread p :: rest => if rest.isEmpty && !comma then p.target? else none

/-- The same for the members of an object; only the last may take the rest, and
that as one place. -/
def targetEntries? (comma : Bool) : List (Entry Phrase) → Option Nat
  | [] => some 0
  | .shorthand _ :: rest => targetEntries? comma rest
  | .initialised _ :: rest => do
    return 1 + (← targetEntries? comma rest)
  | .pair _ p :: rest => do
    return (← p.targetPart?) + (← targetEntries? comma rest)
  | .spread p :: rest => if rest.isEmpty && !comma && p.isPlace then some 0 else none
  | .method _ :: _ | .accessor _ :: _ => none

end

end Phrase

namespace Parser

/-- Claims a phrase as the target of an assignment. -/
def claimTarget (p : Phrase) : Parser Unit := do
  match p.target? with
  | some n => modify fun s => { s with unset := s.unset - n }
  | none => failure

/-- Claims a phrase as the one place that an operator changes. -/
def claimPlace (p : Phrase) : Parser Unit := if p.isPlace then pure () else failure

end Parser

end MiniTemplate.Script
