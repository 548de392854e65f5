/-!
# Directives

Every dialect has the same sixteen directives, and a name of its own for each, which
stands as an attribute name. A spelling is a dialect by rule: a stem, a mark that
depends on the style, and the directive's own suffix.
-/

namespace MiniTemplate

/-- The directives. -/
inductive Directive where
  | start
  | elseIf
  | otherwise
  | loop
  | loopIndex
  | loopItem
  | key
  | model
  | modelProp
  | modelEvent
  | modelValuePath
  | modelFilter
  | dynamicClass
  | dynamicStyle
  | reference
  | visibility
  deriving DecidableEq, Repr

namespace Directive

/-- All directives. -/
def all : List Directive :=
  [.start, .elseIf, .otherwise, .loop, .loopIndex, .loopItem, .key, .model, .modelProp, .modelEvent,
   .modelValuePath, .modelFilter, .dynamicClass, .dynamicStyle, .reference, .visibility]

/-- How a directive's name ends. -/
def suffix : Directive → String
  | .start => "if"
  | .elseIf => "elif"
  | .otherwise => "else"
  | .loop => "for"
  | .loopIndex => "for-index"
  | .loopItem => "for-item"
  | .key => "key"
  | .model => "model"
  | .modelProp => "model-prop"
  | .modelEvent => "model-event"
  | .modelValuePath => "model-value-path"
  | .modelFilter => "model-filter"
  | .dynamicClass => "class"
  | .dynamicStyle => "style"
  | .reference => "ref"
  | .visibility => "show"

/-- The member that holds a directive's name in a table of directives. -/
def label : Directive → String
  | .start => "if"
  | .elseIf => "elseif"
  | .otherwise => "else"
  | .loop => "for"
  | .loopIndex => "forIndex"
  | .loopItem => "forItem"
  | .key => "key"
  | .model => "model"
  | .modelProp => "modelProp"
  | .modelEvent => "modelEvent"
  | .modelValuePath => "modelValuePath"
  | .modelFilter => "modelFilter"
  | .dynamicClass => "dynamicClass"
  | .dynamicStyle => "dynamicStyle"
  | .reference => "ref"
  | .visibility => "show"

end Directive

/-- A dialect: the name that each directive has. -/
structure Dialect where
  name : Directive → String

namespace Dialect

/-- The names of all directives. -/
def names (d : Dialect) : List String := Directive.all.map d.name

/-- Whether an attribute name is that of a directive. -/
def isDirective (d : Dialect) (label : String) : Bool := d.names.contains label

end Dialect

/-- How the stem of a name is set apart. -/
inductive Style where
  | namespaced
  | dashed
  deriving DecidableEq, Repr

/-- The mark after the stem. -/
def Style.mark : Style → String
  | .namespaced => ":"
  | .dashed => "-"

/-- How the names of a dialect are built. -/
structure Spelling where
  style : Style
  stem : String
  deriving DecidableEq, Repr

namespace Spelling

/-- The name of a directive. -/
def name (s : Spelling) (d : Directive) : String := s.stem ++ s.style.mark ++ d.suffix

/-- The dialect of a spelling. -/
def dialect (s : Spelling) : Dialect := ⟨s.name⟩

instance : Coe Spelling Dialect := ⟨dialect⟩

/-- The names of all directives. -/
def names (s : Spelling) : List String := s.dialect.names

/-- Whether an attribute name is that of a directive. -/
def isDirective (s : Spelling) (label : String) : Bool := s.dialect.isDirective label

@[simp] theorem isDirective_dialect (s : Spelling) (label : String) :
    s.dialect.isDirective label = s.isDirective label := rfl

end Spelling

end MiniTemplate
