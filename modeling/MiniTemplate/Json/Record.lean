import MiniTemplate.Json.Basic

/-!
# Records in JSON

Reading and writing records as JSON objects. A declared member stands at most
once; where it is optional, `null` means that it is absent. What a record does
not declare is either ignored or kept in order as its `extras`. A record without
extras may also be written as the array of its members' values.
-/

namespace MiniTemplate.Json

/-! ## Reading values -/

/-- The members of an object. -/
def members? : Json → Option Members
  | .obj members => some members
  | _ => none

/-- The value of a string. -/
def string? : Json → Option String
  | .str s => some s
  | _ => none

/-- One of several names: a string, or an object that has the name alone, as `null`. -/
def name? : Json → Option String
  | .str s => some s
  | .obj [(s, .null)] => some s
  | _ => none

/-- The value of a truth value. -/
def bool? : Json → Option Bool
  | .bool b => some b
  | _ => none

/-- The items of an array, each read in the same way. -/
def list? {α : Type} (read : Json → Option α) : Json → Option (List α)
  | .arr items => items.mapM read
  | _ => none

/-- A value that may be `null`. -/
def nullable? {α : Type} (read : Json → Option α) : Json → Option (Option α)
  | .null => some none
  | v => (read v).map some

/-- An array as the object that has its items as the values of the given members;
any other value as it is. -/
def named (names : List String) : Json → Json
  | .arr items => if items.length = names.length then .obj (names.zip items) else .arr items
  | v => v

/-! ## Reading members -/

namespace Members

/-- All values of a member. -/
def values (ms : Members) (key : String) : List Json :=
  (ms.filter fun m => m.1 == key).map Prod.snd

/-- A member that has to be there, once. -/
def required? {α : Type} (ms : Members) (key : String) (read : Json → Option α) : Option α :=
  match ms.values key with
  | [v] => read v
  | _ => none

/-- A member that may be absent or `null`. -/
def optional? {α : Type} (ms : Members) (key : String) (read : Json → Option α) :
    Option (Option α) :=
  match ms.values key with
  | [] => some none
  | [v] => nullable? read v
  | _ => none

/-- A truth value that has a default. -/
def flag? (ms : Members) (key : String) (default : Bool) : Option Bool :=
  match ms.values key with
  | [] => some default
  | [v] => v.bool?
  | _ => none

/-- The members that are not declared, in order. -/
def extras (ms : Members) (declared : List String) : Members :=
  mergedMembers [] (ms.filter fun m => !declared.contains m.1)

end Members

/-! ## Writing -/

/-- A value, or `null` if there is none. -/
def orNull {α : Type} (write : α → Json) : Option α → Json
  | some a => write a
  | none => .null

/-- A member that is left out if it has no value. -/
def member {α : Type} (key : String) (write : α → Json) : Option α → Members
  | some a => [(key, write a)]
  | none => []

end MiniTemplate.Json
