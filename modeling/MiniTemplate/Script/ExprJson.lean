import MiniTemplate.Json.Record
import MiniTemplate.Script.Expr

/-!
# Expression trees in JSON

A tree is an object with its variant as `type`. It is also read from an array of
the variant and the values of its members. A number that is not finite has no
JSON form and is written as `null`.
-/

namespace MiniTemplate.Script

open MiniTemplate.Json (Members)

/-! ## Writing -/

/-- A literal's JSON form. -/
def Literal.toJson : Literal → Json
  | .bool b => .bool b
  | .number x => if x.isInfinite then .null else .num (.float x)
  | .string s => .str s
  | .null => .null

/-- The JSON form of a variant with its members. -/
def tagged (variant : String) (ms : Members) : Json := .obj (("type", .str variant) :: ms)

mutual

/-- A tree's JSON form. -/
def Expr.toJson : Expr → Json
  | .identifier name => tagged "Identifier" [("name", .str name)]
  | .literal value => tagged "Literal" [("value", value.toJson)]
  | .template quasis expressions =>
    tagged "Template" [("quasis", .arr (quasis.map .str)),
      ("expressions", .arr (toJsons expressions))]
  | .array elements => tagged "Array" [("elements", .arr (elementJsons elements))]
  | .object properties => tagged "Object" [("properties", .arr (propertyJsons properties))]
  | .member object property computed optional =>
    tagged "Member" [("object", object.toJson), ("property", property.toJson),
      ("computed", .bool computed), ("optional", .bool optional)]
  | .call callee arguments optional =>
    tagged "Call" [("callee", callee.toJson), ("arguments", .arr (toJsons arguments)),
      ("optional", .bool optional)]
  | .unary operator argument =>
    tagged "Unary" [("operator", .str operator), ("argument", argument.toJson)]
  | .binary operator left right =>
    tagged "Binary" [("operator", .str operator), ("left", left.toJson), ("right", right.toJson)]
  | .logical operator left right =>
    tagged "Logical" [("operator", .str operator), ("left", left.toJson), ("right", right.toJson)]
  | .conditional test consequent alternate =>
    tagged "Conditional" [("test", test.toJson), ("consequent", consequent.toJson),
      ("alternate", alternate.toJson)]
  | .sequence expressions => tagged "Sequence" [("expressions", .arr (toJsons expressions))]
  | .spread argument => tagged "Spread" [("argument", argument.toJson)]

/-- The JSON forms of several trees. -/
def toJsons : List Expr → List Json
  | [] => []
  | e :: rest => e.toJson :: toJsons rest

/-- The JSON forms of an array's elements; a hole is `null`. -/
def elementJsons : List (Option Expr) → List Json
  | [] => []
  | none :: rest => .null :: elementJsons rest
  | some e :: rest => e.toJson :: elementJsons rest

/-- The JSON forms of an object's members. -/
def propertyJsons : List (Property Expr) → List Json
  | [] => []
  | .pair key value computed :: rest =>
    tagged "Property" [("key", key.toJson), ("value", value.toJson), ("computed", .bool computed)]
      :: propertyJsons rest
  | .spread argument :: rest =>
    tagged "Spread" [("argument", argument.toJson)] :: propertyJsons rest

end

/-! ## Reading -/

/-- A literal from its JSON form. -/
def Literal.ofJson? : Json → Option Literal
  | .null => some .null
  | .bool b => some (.bool b)
  | .num (.int i) => some (.number (.ofInt i))
  | .num (.float x) => some (.number x)
  | .str s => some (.string s)
  | _ => none

/-- The variants of trees, with their members in order. -/
def exprVariants : List (String × List String) :=
  [("Identifier", ["name"]), ("Literal", ["value"]), ("Template", ["quasis", "expressions"]),
   ("Array", ["elements"]), ("Object", ["properties"]),
   ("Member", ["object", "property", "computed", "optional"]),
   ("Call", ["callee", "arguments", "optional"]), ("Unary", ["operator", "argument"]),
   ("Binary", ["operator", "left", "right"]), ("Logical", ["operator", "left", "right"]),
   ("Conditional", ["test", "consequent", "alternate"]), ("Sequence", ["expressions"]),
   ("Spread", ["argument"])]

/-- The variants of an object's members, with their own members in order. -/
def propertyVariants : List (String × List String) :=
  [("Property", ["key", "value", "computed"]), ("Spread", ["argument"])]

/-- The variant of a tagged value, and its members. -/
def variant? (variants : List (String × List String)) : Json → Option (String × Members)
  | .obj ms => do
    return (← Members.required? ms "type" Json.string?, ms)
  | .arr (.str variant :: items) => do
    let names ← variants.lookup variant
    if items.length = names.length then return (variant, names.zip items) else none
  | _ => none

/-- A member of an object from its JSON form. -/
def Property.ofJson? (read : Json → Option Expr) (v : Json) : Option (Property Expr) := do
  let (variant, ms) ← variant? propertyVariants v
  match variant with
  | "Property" =>
    return .pair (← ms.required? "key" read) (← ms.required? "value" read)
      (← ms.required? "computed" Json.bool?)
  | "Spread" => return .spread (← ms.required? "argument" read)
  | _ => none

namespace Expr

/-- A tree from its variant and members, given how to read the trees within. -/
def ofMembers? (read : Json → Option Expr) (variant : String) (ms : Members) : Option Expr := do
  match variant with
  | "Identifier" => return .identifier (← ms.required? "name" Json.string?)
  | "Literal" => return .literal (← ms.required? "value" Literal.ofJson?)
  | "Template" =>
    return .template (← ms.required? "quasis" (Json.list? Json.string?))
      (← ms.required? "expressions" (Json.list? read))
  | "Array" => return .array (← ms.required? "elements" (Json.list? (Json.nullable? read)))
  | "Object" => return .object (← ms.required? "properties" (Json.list? (Property.ofJson? read)))
  | "Member" =>
    return .member (← ms.required? "object" read) (← ms.required? "property" read)
      (← ms.required? "computed" Json.bool?) (← ms.required? "optional" Json.bool?)
  | "Call" =>
    return .call (← ms.required? "callee" read) (← ms.required? "arguments" (Json.list? read))
      (← ms.required? "optional" Json.bool?)
  | "Unary" =>
    return .unary (← ms.required? "operator" Json.string?) (← ms.required? "argument" read)
  | "Binary" =>
    return .binary (← ms.required? "operator" Json.string?) (← ms.required? "left" read)
      (← ms.required? "right" read)
  | "Logical" =>
    return .logical (← ms.required? "operator" Json.string?) (← ms.required? "left" read)
      (← ms.required? "right" read)
  | "Conditional" =>
    return .conditional (← ms.required? "test" read) (← ms.required? "consequent" read)
      (← ms.required? "alternate" read)
  | "Sequence" => return .sequence (← ms.required? "expressions" (Json.list? read))
  | "Spread" => return .spread (← ms.required? "argument" read)
  | _ => none

/-- A tree from a JSON value that is nested less deep than a bound. -/
def ofJsonWithin? : Nat → Json → Option Expr
  | 0, _ => none
  | depth + 1, v => do
    let (variant, ms) ← variant? exprVariants v
    ofMembers? (ofJsonWithin? depth) variant ms

/-- **A tree from its JSON form.** -/
def ofJson? (v : Json) : Option Expr := ofJsonWithin? (v.depth + 1) v

end Expr

end MiniTemplate.Script
