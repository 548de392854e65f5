import MiniTemplate.Script.ExprJson

/-!
# Expression slots

Where an expression was taken from decides the kind of slot that holds it: a text
node, a loop, an attribute, the two fragments of a class or a style, or the
handlers of events.
-/

namespace MiniTemplate

open Script (Expr)

/-- The handlers of an event. -/
structure Handlers where
  event : String
  handlers : List Expr
  deriving Repr

/-- Extracted expressions, by the kind of place that they come from. -/
inductive Slot where
  | text (tree : Expr)
  | loop (tree : Expr)
  /-- The static and the dynamic fragment, or one whole value. -/
  | classOrStyle (fragments : List (Option Expr))
  | eventMap (events : List Handlers)
  | generic (tree : Expr)
  deriving Repr

namespace Handlers

/-- The JSON form of an event's handlers. -/
def toJson (h : Handlers) : Json :=
  .obj [("eventName", .str h.event), ("handlerExpressions", .arr (Script.toJsons h.handlers))]

/-- An event's handlers from their JSON form. -/
def ofJson? (v : Json) : Option Handlers := do
  let ms ← (v.named ["eventName", "handlerExpressions"]).members?
  return {
    event := ← ms.required? "eventName" Json.string?
    handlers := ← ms.required? "handlerExpressions" (Json.list? Expr.ofJson?) }

end Handlers

namespace Slot

/-- The name of a slot's kind. -/
def kind : Slot → String
  | .text _ => "text"
  | .loop _ => "for"
  | .classOrStyle _ => "classOrStyle"
  | .eventMap _ => "eventMap"
  | .generic _ => "generic"

/-- The JSON form of what a slot holds. -/
def content : Slot → Json
  | .text tree | .loop tree | .generic tree => tree.toJson
  | .classOrStyle fragments => .arr (Script.elementJsons fragments)
  | .eventMap events => .arr (events.map Handlers.toJson)

/-- A slot's JSON form. -/
def toJson (s : Slot) : Json := .obj [("kind", .str s.kind), ("value", s.content)]

/-- A slot from its kind and the JSON form of what it holds. -/
def ofContent? (kind : String) (v : Json) : Option Slot :=
  match kind with
  | "text" => (Expr.ofJson? v).map .text
  | "for" => (Expr.ofJson? v).map .loop
  | "classOrStyle" => (v.list? (Json.nullable? Expr.ofJson?)).map .classOrStyle
  | "eventMap" => (v.list? Handlers.ofJson?).map .eventMap
  | "generic" => (Expr.ofJson? v).map .generic
  | _ => none

/-- A slot from its JSON form. -/
def ofJson? (v : Json) : Option Slot := do
  let ms ← (v.named ["kind", "value"]).members?
  ms.required? "value" (ofContent? (← ms.required? "kind" Json.name?))

end Slot

end MiniTemplate
