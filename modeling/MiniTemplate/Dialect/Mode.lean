import MiniTemplate.Dialect.Directive
import MiniTemplate.Json.Record

/-!
# Modes and options

A mode is a platform that templates are written for. It decides the spelling of
the directives; the native platforms take templates of the first dialect.
-/

namespace MiniTemplate

/-- The modes. -/
inductive Mode where
  | wx
  | ali
  | swan
  | qq
  | tt
  | jd
  | dd
  | ios
  | android
  | harmony
  deriving DecidableEq, Repr

namespace Mode

/-- All modes. -/
def all : List Mode := [.wx, .ali, .swan, .qq, .tt, .jd, .dd, .ios, .android, .harmony]

/-- A mode's name. -/
def name : Mode → String
  | .wx => "wx"
  | .ali => "ali"
  | .swan => "swan"
  | .qq => "qq"
  | .tt => "tt"
  | .jd => "jd"
  | .dd => "dd"
  | .ios => "ios"
  | .android => "android"
  | .harmony => "harmony"

/-- The mode of a name. -/
def ofName? (name : String) : Option Mode := all.find? fun m => m.name == name

/-- How a mode spells its directives. -/
def spelling : Mode → Spelling
  | .wx | .ios | .android | .harmony => ⟨.namespaced, "wx"⟩
  | .ali => ⟨.namespaced, "a"⟩
  | .swan => ⟨.dashed, "s"⟩
  | .qq => ⟨.namespaced, "qq"⟩
  | .tt => ⟨.namespaced, "tt"⟩
  | .jd => ⟨.namespaced, "jd"⟩
  | .dd => ⟨.namespaced, "dd"⟩

/-- A mode's JSON form. -/
def toJson (m : Mode) : Json := .str m.name

/-- A mode from its JSON form. -/
def ofJson? (v : Json) : Option Mode := v.name?.bind ofName?

end Mode

/-- The options of a run. -/
structure Options where
  mode : Mode
  /-- Whether the result is held against the contract. -/
  validates : Bool := true
  deriving DecidableEq, Repr

namespace Options

/-- The JSON form of options. -/
def toJson (o : Options) : Json :=
  .obj [("mode", o.mode.toJson), ("validateOutput", .bool o.validates)]

/-- Options from their JSON form. -/
def ofJson? (v : Json) : Option Options := do
  let ms ← ((v.named ["mode"]).named ["mode", "validateOutput"]).members?
  return {
    mode := ← ms.required? "mode" Mode.ofJson?
    validates := ← ms.flag? "validateOutput" true }

end Options

end MiniTemplate
