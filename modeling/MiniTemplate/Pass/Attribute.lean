import MiniTemplate.Dialect.Directive
import MiniTemplate.Markup.Node
import MiniTemplate.Pass.Frontend

/-!
# Attributes

Directives are dropped. Every other attribute keeps its literal value, or trades
it for the expressions extracted from it.
-/

namespace MiniTemplate.Pass

open Markup (Attribute)
open Script (Expr)

/-- The attribute that holds the handlers of events. -/
def eventsName : String := "data-eventconfigs"

/-- What an earlier stage has extracted, as an attribute may hold it: the kinds that
belong to nodes become general. -/
def reuse : Slot → Slot
  | .text tree | .loop tree => .generic tree
  | slot => slot

/-- A fragment that was written; an empty one counts as absent. -/
def authored : Option String → Option String
  | some source => if source.isEmpty then none else some source
  | none => none

/-- The tree of an attribute's value, if it holds one. -/
def valueTree (f : Frontend) (a : Attribute) : Trace (Option Expr) :=
  match a.value with
  | some value => f.extract value
  | none => return none

/-- The slot of a class or a style: from its fragments if one is written, else from
its value. -/
def fragmentSlot (f : Frontend) (a : Attribute) (static dynamic : Option String) :
    Trace (Option Slot) := do
  if (authored static).isSome || (authored dynamic).isSome then
    let static ← f.parseOptional (authored static)
    let dynamic ← f.parseOptional (authored dynamic)
    return some (.classOrStyle [static, dynamic])
  else
    return (← valueTree f a).map fun whole => .classOrStyle [some whole]

/-- The trees of the handlers of events. -/
def eventTrees (f : Frontend) : List (String × Option (List String)) → Trace (List Handlers)
  | [] => return []
  | (event, sources) :: rest => do
    let handlers ← f.parseAll (sources.getD [])
    return { event, handlers } :: (← eventTrees f rest)

/-- The slot of the attribute that holds the handlers of events. -/
def eventSlot (f : Frontend) (a : Attribute) : Trace (Option Slot) := do
  match a.events with
  | some events => return some (.eventMap (← eventTrees f events))
  | none => return none

/-- The slot of an attribute, if it has one. -/
def attributeSlot (f : Frontend) (a : Attribute) : Trace (Option Slot) := do
  match a.slot with
  | some slot => return some (reuse slot)
  | none =>
    if a.name == "class" then fragmentSlot f a a.staticClass a.dynamicClass
    else if a.name == "style" then fragmentSlot f a a.staticStyle a.dynamicStyle
    else if a.name == eventsName then eventSlot f a
    else return (← valueTree f a).map .generic

/-- An attribute, simplified. -/
def simplifyAttribute (f : Frontend) (a : Attribute) : Trace Tree.Attribute := do
  let slot ← attributeSlot f a
  return { name := a.name, value := if slot.isSome then none else a.value, slot, extra := a.extra }

/-- The attributes that are no directives, simplified in order. -/
def simplifyAttributeList (f : Frontend) (d : Dialect) :
    List Attribute → Trace (List Tree.Attribute)
  | [] => return []
  | a :: rest => do
    if d.isDirective a.name then simplifyAttributeList f d rest
    else
      let simplified ← simplifyAttribute f a
      return simplified :: (← simplifyAttributeList f d rest)

/-- A list, unless it is empty. -/
def unlessEmpty {α : Type} (xs : List α) : Option (List α) := if xs.isEmpty then none else some xs

/-- The attributes of a node, simplified; none if nothing is left. -/
def simplifyAttributes (f : Frontend) (d : Dialect) (as : List Attribute) :
    Trace (Option (List Tree.Attribute)) := do
  return unlessEmpty (← simplifyAttributeList f d as)

end MiniTemplate.Pass
