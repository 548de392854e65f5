import MiniTemplate.Tree.Node

/-!
# Generator trees in JSON

Absent members are left out, and extra members come last. A condition always
writes its expression, `null` if it has none, and may be read from an array.
-/

namespace MiniTemplate.Tree

open Json (Members)
open Script (Expr)

namespace Attribute

/-- The members that an attribute declares. -/
def declared : List String := ["name", "value", "__exps"]

/-- An attribute's JSON form. -/
def toJson (a : Attribute) : Json :=
  .obj (("name", .str a.name) :: Json.member "value" .str a.value
    ++ Json.member "__exps" Slot.toJson a.slot ++ a.extra)

/-- An attribute from its JSON form. -/
def ofJson? (v : Json) : Option Attribute := do
  let ms ← v.members?
  return {
    name := ← ms.required? "name" Json.string?
    value := ← ms.optional? "value" Json.string?
    slot := ← ms.optional? "__exps" Slot.ofJson?
    extra := ms.extras declared }

end Attribute

namespace Loop

/-- The members that a loop declares. -/
def declared : List String := ["__exps", "index", "item", "key"]

/-- A loop's JSON form. -/
def toJson (l : Loop) : Json :=
  .obj (("__exps", l.slot.toJson) :: Json.member "index" .str l.index
    ++ Json.member "item" .str l.item ++ Json.member "key" .str l.key ++ l.extra)

/-- A loop from its JSON form. -/
def ofJson? (v : Json) : Option Loop := do
  let ms ← v.members?
  return {
    slot := ← ms.required? "__exps" Slot.ofJson?
    index := ← ms.optional? "index" Json.string?
    item := ← ms.optional? "item" Json.string?
    key := ← ms.optional? "key" Json.string?
    extra := ms.extras declared }

end Loop

namespace Node

/-! ## Writing -/

/-- The members that a node declares. -/
def declared : List String :=
  ["type", "tag", "text", "attrsList", "__exps", "ifConditions", "for", "children"]

mutual

/-- A node's JSON form. -/
def toJson : Node → Json
  | { kind, tag, text, attributes, slot, conditions, loop, children, extra } =>
    .obj (("type", kind.toJson) :: Json.member "tag" .str tag ++ Json.member "text" .str text
      ++ Json.member "attrsList" (fun as => .arr (as.map Attribute.toJson)) attributes
      ++ Json.member "__exps" Slot.toJson slot ++ conditionsMember conditions
      ++ Json.member "for" Loop.toJson loop ++ childrenMember children ++ extra)

/-- The member that holds the conditions. -/
def conditionsMember : Option (List (Condition Node)) → Members
  | none => []
  | some conditions => [("ifConditions", .arr (conditionJsons conditions))]

/-- The member that holds the children. -/
def childrenMember : Option (List Node) → Members
  | none => []
  | some nodes => [("children", .arr (toJsons nodes))]

/-- The JSON forms of several nodes. -/
def toJsons : List Node → List Json
  | [] => []
  | n :: rest => n.toJson :: toJsons rest

/-- The JSON forms of conditions. -/
def conditionJsons : List (Condition Node) → List Json
  | [] => []
  | { isExpression, target, expression } :: rest =>
    .obj [("isExpression", .bool isExpression), ("target", targetJson target),
      ("expression", Json.orNull Expr.toJson expression)] :: conditionJsons rest

/-- The JSON form of a target. -/
def targetJson : Target Node → Json
  | .anchor => .str "self"
  | .block node => node.toJson

end

/-! ## Reading -/

/-- A target from its JSON form, given how to read a node. -/
def targetOfJson? (read : Json → Option Node) (v : Json) : Option (Target Node) :=
  if v.name? == some "self" then some .anchor else (read v).map .block

/-- A condition from its JSON form, given how to read a node. -/
def conditionOfJson? (read : Json → Option Node) (v : Json) : Option (Condition Node) := do
  let ms ← (v.named ["isExpression", "target", "expression"]).members?
  return {
    isExpression := ← ms.required? "isExpression" Json.bool?
    target := ← ms.required? "target" (targetOfJson? read)
    expression := ← ms.optional? "expression" Expr.ofJson? }

/-- A node from a JSON value that is nested less deep than a bound. -/
def ofJsonWithin? : Nat → Json → Option Node
  | 0, _ => none
  | depth + 1, v => do
    let ms ← v.members?
    return {
      kind := ← ms.required? "type" NodeKind.ofJson?
      tag := ← ms.optional? "tag" Json.string?
      text := ← ms.optional? "text" Json.string?
      attributes := ← ms.optional? "attrsList" (Json.list? Attribute.ofJson?)
      slot := ← ms.optional? "__exps" Slot.ofJson?
      conditions :=
        ← ms.optional? "ifConditions" (Json.list? (conditionOfJson? (ofJsonWithin? depth)))
      loop := ← ms.optional? "for" Loop.ofJson?
      children := ← ms.optional? "children" (Json.list? (ofJsonWithin? depth))
      extra := ms.extras declared }

/-- **A node from its JSON form.** -/
def ofJson? (v : Json) : Option Node := ofJsonWithin? (v.depth + 1) v

/-- What is wrong with a member of a node that holds no children; a branch's faults
all count as one of shape. -/
def memberFault? (key : String) (v : Json) : Option Fault :=
  match key with
  | "type" => NodeKind.fault? v
  | "tag" | "text" => Fault.ofRead (v.nullable? Json.string?)
  | "attrsList" => Fault.ofRead (v.nullable? (Json.list? Attribute.ofJson?))
  | "__exps" => Fault.ofRead (v.nullable? Slot.ofJson?)
  | "ifConditions" => Fault.ofRead (v.nullable? (Json.list? (conditionOfJson? ofJson?)))
  | "for" => Fault.ofRead (v.nullable? Loop.ofJson?)
  | _ => none

/-- The first fault of a value that is nested less deep than a bound. -/
def faultWithin? : Nat → Json → Option Fault
  | depth + 1, .obj ms =>
    Fault.first? declared ["type"]
      (fun key v => if key == "children" then Fault.inList? (faultWithin? depth) v
        else memberFault? key v) [] ms
  | _, _ => some .shape

/-- The first fault of a value that is no node. -/
def fault (v : Json) : Fault := (faultWithin? (v.depth + 1) v).getD .shape

/-- A node from its JSON form, or what is wrong with that. -/
def read (v : Json) : Except Fault Node :=
  match ofJson? v with
  | some n => .ok n
  | none => .error (fault v)

end Node

end MiniTemplate.Tree
