import MiniTemplate.Markup.Node

/-!
# Markup trees in JSON

A node is written with all its declared members, absent ones as `null`, and then
its extra members. Reading accepts absent members, and keeps what is not declared.
-/

namespace MiniTemplate.Markup

open Json (Members)

/-! ## Guards, loops and attributes -/

namespace Guard

/-- A guard's JSON form. -/
def toJson (g : Guard) : Json := .obj [("raw", Json.orNull .str g.raw), ("exp", .str g.source)]

/-- A guard from its JSON form. -/
def ofJson? (v : Json) : Option Guard := do
  let ms ← (v.named ["raw", "exp"]).members?
  return { raw := ← ms.optional? "raw" Json.string?, source := ← ms.required? "exp" Json.string? }

end Guard

namespace Loop

/-- The members that a loop declares. -/
def declared : List String := ["raw", "exp", "index", "item", "key"]

/-- A loop's JSON form. -/
def toJson (l : Loop) : Json :=
  .obj ([("raw", Json.orNull .str l.raw), ("exp", .str l.source),
    ("index", Json.orNull .str l.index), ("item", Json.orNull .str l.item),
    ("key", Json.orNull .str l.key)] ++ l.extra)

/-- A loop from its JSON form. -/
def ofJson? (v : Json) : Option Loop := do
  let ms ← v.members?
  return {
    raw := ← ms.optional? "raw" Json.string?
    source := ← ms.required? "exp" Json.string?
    index := ← ms.optional? "index" Json.string?
    item := ← ms.optional? "item" Json.string?
    key := ← ms.optional? "key" Json.string?
    extra := ms.extras declared }

end Loop

/-- The handlers of events, by the name of the event. -/
abbrev Events := List (String × Option (List String))

namespace Events

/-- The JSON form of the handlers of events. -/
def toJson (events : Events) : Json :=
  .obj (events.map fun (name, handlers) =>
    (name, Json.orNull (fun sources => .arr (sources.map .str)) handlers))

/-- The handlers of each event, in order. -/
def ofMembers? (ms : Members) : Option Events :=
  ms.mapM fun (name, v) => do
    return (name, ← Json.nullable? (Json.list? Json.string?) v)

/-- The handlers of events from their JSON form; of an event that repeats, the last
handlers count. -/
def ofJson? (v : Json) : Option Events := do
  let events ← ofMembers? (← v.members?)
  return events.foldl (fun before (name, handlers) => Json.upsert before name handlers) []

end Events

namespace Attribute

/-- The members that an attribute declares. -/
def declared : List String :=
  ["name", "value", "staticClassExp", "dynamicClassExp", "staticStyleExp", "dynamicStyleExp",
   "eventConfigMap", "__exps"]

/-- An attribute's JSON form. -/
def toJson (a : Attribute) : Json :=
  .obj ([("name", .str a.name), ("value", Json.orNull .str a.value),
    ("staticClassExp", Json.orNull .str a.staticClass),
    ("dynamicClassExp", Json.orNull .str a.dynamicClass),
    ("staticStyleExp", Json.orNull .str a.staticStyle),
    ("dynamicStyleExp", Json.orNull .str a.dynamicStyle),
    ("eventConfigMap", Json.orNull Events.toJson a.events),
    ("__exps", Json.orNull Slot.toJson a.slot)] ++ a.extra)

/-- An attribute from its JSON form. -/
def ofJson? (v : Json) : Option Attribute := do
  let ms ← v.members?
  return {
    name := ← ms.required? "name" Json.string?
    value := ← ms.optional? "value" Json.string?
    staticClass := ← ms.optional? "staticClassExp" Json.string?
    dynamicClass := ← ms.optional? "dynamicClassExp" Json.string?
    staticStyle := ← ms.optional? "staticStyleExp" Json.string?
    dynamicStyle := ← ms.optional? "dynamicStyleExp" Json.string?
    events := ← ms.optional? "eventConfigMap" Events.ofJson?
    slot := ← ms.optional? "__exps" Slot.ofJson?
    extra := ms.extras declared }

end Attribute

/-! ## Nodes -/

/-- Puts a member into members that are in the order of their names. -/
def insertByName (m : String × Json) : Members → Members
  | [] => [m]
  | n :: rest => if m.1 < n.1 then m :: n :: rest else n :: insertByName m rest

/-- The members in the order of their names. -/
def sortByName (ms : Members) : Members := ms.foldr insertByName []

/-- The attributes by name from their JSON form. -/
def attributeMap? (v : Json) : Option Members :=
  v.members?.map fun ms => sortByName (Json.mergedMembers [] ms)

namespace Node

/-- The members that a node declares. -/
def declared : List String :=
  ["type", "tag", "text", "attrsList", "attrsMap", "children", "if", "elseif", "else", "for", "_if"]

mutual

/-- A node's JSON form. -/
def toJson : Node → Json
  | { kind, tag, text, attributes, attributeMap, children, ifGuard, elseIfGuard, isElse, loop,
      staticIf, extra } =>
    .obj ([("type", kind.toJson), ("tag", Json.orNull .str tag), ("text", Json.orNull .str text),
      ("attrsList", Json.orNull (fun as => .arr (as.map Attribute.toJson)) attributes),
      ("attrsMap", Json.orNull .obj attributeMap), ("children", childrenJson children),
      ("if", Json.orNull Guard.toJson ifGuard), ("elseif", Json.orNull Guard.toJson elseIfGuard),
      ("else", .bool isElse), ("for", Json.orNull Loop.toJson loop),
      ("_if", Json.orNull .bool staticIf)] ++ extra)

/-- The JSON form of children that may be absent. -/
def childrenJson : Option (List Node) → Json
  | none => .null
  | some nodes => .arr (toJsons nodes)

/-- The JSON forms of several nodes. -/
def toJsons : List Node → List Json
  | [] => []
  | n :: rest => n.toJson :: toJsons rest

end

/-- A node from a JSON value that is nested less deep than a bound. -/
def ofJsonWithin? : Nat → Json → Option Node
  | 0, _ => none
  | depth + 1, v => do
    let ms ← v.members?
    return {
      kind := ← ms.required? "type" NodeKind.ofJson?
      tag := ← ms.optional? "tag" Json.string?
      text := ← ms.optional? "text" Json.string?
      attributes := ← ms.optional? "attrsList" (Json.list? Attribute.ofJson?)
      attributeMap := ← ms.optional? "attrsMap" attributeMap?
      children := ← ms.optional? "children" (Json.list? (ofJsonWithin? depth))
      ifGuard := ← ms.optional? "if" Guard.ofJson?
      elseIfGuard := ← ms.optional? "elseif" Guard.ofJson?
      isElse := ← ms.flag? "else" false
      loop := ← ms.optional? "for" Loop.ofJson?
      staticIf := ← ms.optional? "_if" Json.bool?
      extra := ms.extras declared }

/-- **A node from its JSON form.** -/
def ofJson? (v : Json) : Option Node := ofJsonWithin? (v.depth + 1) v

/-- What is wrong with a member of a node that holds no nodes. -/
def memberFault? (key : String) (v : Json) : Option Fault :=
  match key with
  | "type" => NodeKind.fault? v
  | "tag" | "text" => Fault.ofRead (v.nullable? Json.string?)
  | "attrsList" => Fault.ofRead (v.nullable? (Json.list? Attribute.ofJson?))
  | "attrsMap" => Fault.ofRead (v.nullable? attributeMap?)
  | "if" | "elseif" => Fault.ofRead (v.nullable? Guard.ofJson?)
  | "else" => Fault.ofRead v.bool?
  | "for" => Fault.ofRead (v.nullable? Loop.ofJson?)
  | "_if" => Fault.ofRead (v.nullable? Json.bool?)
  | _ => none

/-- The first fault of a value that is nested less deep than a bound. -/
def faultWithin? : Nat → Json → Option Fault
  | depth + 1, .obj ms =>
    Fault.first? declared ["type"]
      (fun key v => if key == "children" then Fault.inList? (faultWithin? depth) v
        else memberFault? key v) [] ms
  | _, _ => some .shape

/-- The first fault of a value that is no node. -/
def fault (v : Json) : Fault := (faultWithin? (v.depth + 1) v).getD .shape

/-- A node from its JSON form, or what is wrong with that. -/
def read (v : Json) : Except Fault Node :=
  match ofJson? v with
  | some n => .ok n
  | none => .error (fault v)

end Node

end MiniTemplate.Markup
