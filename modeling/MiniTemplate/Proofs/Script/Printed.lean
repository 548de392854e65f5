import MiniTemplate.Proofs.Script.Operators

/-!
# Printed expressions

The lexemes of an expression tree, with parentheses around a part only where its rank asks
for them: the precedence and the grouping of operators, the comma operator, and the two
mixtures that the language forbids, `??` next to `||` or `&&` and a unary operation before
`**`. `Expr.WellFormed` says which trees have a printed form, and `Expr.Prints` which texts
are one; `Expr.printed` is the shortest of them but for the escapes in strings.
-/

namespace MiniTemplate.Script

/-! ## Well-formed trees -/

/-- Words that are no identifiers: those that the language reserves, and `async`. -/
def keywords : List String :=
  ["async", "await", "break", "case", "catch", "class", "const", "continue", "debugger", "default",
   "delete", "do", "else", "enum", "export", "extends", "false", "finally", "for", "function", "if",
   "import", "in", "instanceof", "new", "null", "return", "super", "switch", "this", "throw",
   "true", "try", "typeof", "var", "void", "while", "with", "yield"]

/-- Whether a word is an ASCII identifier. -/
def isIdentifier (name : String) : Bool := (Lexeme.word name).valid && !keywords.contains name

/-- The logical operators. -/
def logicalOperators : List String := ["??", "||", "&&"]

/-- The other operators between two operands. -/
def arithmeticOperators : List String :=
  ["|", "^", "&", "==", "!=", "===", "!==", "<", ">", "<=", ">=", "instanceof", "in", "<<", ">>",
   ">>>", "+", "-", "*", "/", "%", "**"]

/-- Whether a number is a natural number that is not rounded. -/
def IsWhole (x : Binary64) : Prop := ∃ n < Nat.pow 2 53, x = .ofNat n

/-- Literals with a printed form. -/
inductive Literal.WellFormed : Literal → Prop where
  | bool (value : Bool) : WellFormed (.bool value)
  | null : WellFormed .null
  | string (value : String) : WellFormed (.string value)
  | number {value : Binary64} (whole : IsWhole value) : WellFormed (.number value)

namespace Expr

/-- The tree that a spread element spreads, and any other element itself. -/
def unspread : Expr → Expr
  | .spread argument => argument
  | e => e

/-- Trees that are keys without being computed. -/
inductive IsKey : Expr → Prop where
  | identifier {name : String} (identifier : isIdentifier name) : IsKey (.identifier name)
  | string (value : String) : IsKey (.literal (.string value))
  | number {value : Binary64} (whole : IsWhole value) : IsKey (.literal (.number value))

/-- **Trees with a printed form.** A spread is none by itself, but may be an element of an
array or an argument of a call. -/
inductive WellFormed : Expr → Prop where
  | identifier {name : String} (identifier : isIdentifier name) : WellFormed (.identifier name)
  | literal {value : Literal} (wellFormed : value.WellFormed) : WellFormed (.literal value)
  | template {quasis : List String} {expressions : List Expr}
      (length : quasis.length = expressions.length + 1)
      (each : ∀ e ∈ expressions, WellFormed e) : WellFormed (.template quasis expressions)
  | array {elements : List (Option Expr)}
      (each : ∀ e, some e ∈ elements → WellFormed e.unspread) : WellFormed (.array elements)
  | object {properties : List (Property Expr)}
      (keys : ∀ key value, .pair key value false ∈ properties → key.IsKey)
      (computed : ∀ key value, .pair key value true ∈ properties → WellFormed key)
      (values : ∀ key value computed, .pair key value computed ∈ properties → WellFormed value)
      (spreads : ∀ e, .spread e ∈ properties → WellFormed e) : WellFormed (.object properties)
  | name {object : Expr} {name : String} {optional : Bool} (base : WellFormed object)
      (identifier : isIdentifier name) :
      WellFormed (.member object (.identifier name) false optional)
  | index {object property : Expr} {optional : Bool} (base : WellFormed object)
      (index : WellFormed property) : WellFormed (.member object property true optional)
  | call {callee : Expr} {arguments : List Expr} {optional : Bool} (base : WellFormed callee)
      (each : ∀ e ∈ arguments, WellFormed e.unspread) :
      WellFormed (.call callee arguments optional)
  | unary {operator : String} {argument : Expr} (known : operator ∈ unaryOperators)
      (operand : WellFormed argument) : WellFormed (.unary operator argument)
  | binary {operator : String} {left right : Expr} (known : operator ∈ arithmeticOperators)
      (ofLeft : WellFormed left) (ofRight : WellFormed right) :
      WellFormed (.binary operator left right)
  | logical {operator : String} {left right : Expr} (known : operator ∈ logicalOperators)
      (ofLeft : WellFormed left) (ofRight : WellFormed right) :
      WellFormed (.logical operator left right)
  | conditional {test consequent alternate : Expr} (ofTest : WellFormed test)
      (ofConsequent : WellFormed consequent) (ofAlternate : WellFormed alternate) :
      WellFormed (.conditional test consequent alternate)
  | sequence {expressions : List Expr} (many : 2 ≤ expressions.length)
      (each : ∀ e ∈ expressions, WellFormed e) : WellFormed (.sequence expressions)

end Expr

/-! ## Lexemes of trees -/

/-- How tightly an operator binds its operands. -/
def precedence : String → Nat
  | "??" => 1
  | "||" => 2
  | "&&" => 3
  | "|" => 4
  | "^" => 5
  | "&" => 6
  | "==" | "!=" | "===" | "!==" => 7
  | "<" | ">" | "<=" | ">=" | "instanceof" | "in" => 8
  | "<<" | ">>" | ">>>" => 9
  | "+" | "-" => 10
  | "*" | "/" | "%" => 11
  | "**" => 12
  | _ => 0

/-- The lexeme of a literal. -/
def Literal.lexeme : Literal → Lexeme
  | .bool true => .word "true"
  | .bool false => .word "false"
  | .null => .word "null"
  | .string value => .string value
  | .number value => .number value.floor

/-- Lexemes in parentheses, unless they fit their place. -/
def enclosed (fits : Bool) (ls : List Lexeme) : List Lexeme :=
  if fits then ls else .mark "(" :: (ls ++ [.mark ")"])

/-- The mark of an optional link. -/
def optionalMark (optional : Bool) : List Lexeme := if optional then [.mark "?."] else []

namespace Expr

/-- How tightly the parts of a tree hold together: the higher its rank, the more places
take it without parentheses. -/
def rank : Expr → Nat
  | .sequence _ => 0
  | .conditional .. | .spread _ => 1
  | .binary operator _ _ | .logical operator _ _ => precedence operator + 1
  | .unary .. => 14
  | _ => 15

mutual

/-- **The lexemes of a tree.** -/
def lexemes : Expr → List Lexeme
  | .identifier name => [.word name]
  | .literal value => [value.lexeme]
  | .template quasis expressions =>
    .opening (quasis.headD "") expressions.isEmpty :: substituted expressions quasis.tail
  | .array elements =>
    .mark "[" :: (withCommas (elementLexemes elements) ++
      ((if endsInHole elements then [.mark ","] else []) ++ [.mark "]"]))
  | .object properties =>
    .mark "\x7b" :: (withCommas (propertyLexemes properties) ++ [.mark "\x7d"])
  | .member base property computed optional =>
    enclosed (15 ≤ base.rank) base.lexemes ++
      if computed then optionalMark optional ++ .mark "[" :: (property.lexemes ++ [.mark "]"])
      else .mark (if optional then "?." else ".") :: property.lexemes
  | .call callee arguments optional =>
    enclosed (15 ≤ callee.rank) callee.lexemes ++
      (optionalMark optional ++ .mark "(" :: (withCommas (partLexemes arguments) ++ [.mark ")"]))
  | .unary operator argument =>
    operatorLexeme operator :: enclosed (14 ≤ argument.rank) argument.lexemes
  | .binary operator left right | .logical operator left right =>
    enclosed (leftFits operator (precedence operator) left.rank) left.lexemes ++
      operatorLexeme operator ::
        enclosed (rightFits operator (precedence operator) right.rank) right.lexemes
  | .conditional test consequent alternate =>
    enclosed (2 ≤ test.rank) test.lexemes ++
      .mark "?" :: (enclosed (1 ≤ consequent.rank) consequent.lexemes ++
        .mark ":" :: enclosed (1 ≤ alternate.rank) alternate.lexemes)
  | .sequence expressions => withCommas (partLexemes expressions)
  | .spread argument => .mark "..." :: enclosed (1 ≤ argument.rank) argument.lexemes

/-- The lexemes of trees between commas. -/
def partLexemes : List Expr → List (List Lexeme)
  | [] => []
  | e :: es => enclosed (1 ≤ e.rank) e.lexemes :: partLexemes es

/-- The lexemes of an array's elements; a hole has none. -/
def elementLexemes : List (Option Expr) → List (List Lexeme)
  | [] => []
  | none :: elements => [] :: elementLexemes elements
  | some e :: elements => enclosed (1 ≤ e.rank) e.lexemes :: elementLexemes elements

/-- The lexemes of an object's members. -/
def propertyLexemes : List (Property Expr) → List (List Lexeme)
  | [] => []
  | .pair key value computed :: properties =>
    ((if computed then .mark "[" :: (enclosed (1 ≤ key.rank) key.lexemes ++ [.mark "]"])
      else key.lexemes) ++ .mark ":" :: enclosed (1 ≤ value.rank) value.lexemes) ::
        propertyLexemes properties
  | .spread e :: properties =>
    (.mark "..." :: enclosed (1 ≤ e.rank) e.lexemes) :: propertyLexemes properties

/-- The substitutions of a template, each with the text after it. -/
def substituted : List Expr → List String → List Lexeme
  | e :: es, q :: qs => e.lexemes ++ .resumption q es.isEmpty :: substituted es qs
  | _, _ => []

end

/-- The lexemes of a tree between commas. -/
def part (e : Expr) : List Lexeme := enclosed (1 ≤ e.rank) e.lexemes

/-- The lexemes of an object's member. -/
def propertyPart : Property Expr → List Lexeme
  | .pair key value computed =>
    (if computed then .mark "[" :: (key.part ++ [.mark "]"]) else key.lexemes) ++
      .mark ":" :: value.part
  | .spread e => .mark "..." :: e.part

theorem partLexemes_eq (es : List Expr) : partLexemes es = es.map part := by
  induction es with
  | nil => rfl
  | cons e es ih => simp [partLexemes, part, ih]

theorem elementLexemes_eq (elements : List (Option Expr)) :
    elementLexemes elements = elements.map (elementParts part) := by
  induction elements with
  | nil => rfl
  | cons element elements ih => cases element <;> simp [elementLexemes, elementParts, part, ih]

theorem propertyLexemes_eq (properties : List (Property Expr)) :
    propertyLexemes properties = properties.map propertyPart := by
  induction properties with
  | nil => rfl
  | cons property properties ih =>
    cases property <;> simp [propertyLexemes, propertyPart, part, ih]

theorem substituted_eq (es : List Expr) (qs : List String) :
    substituted es qs = substitutions lexemes es qs := by
  induction es generalizing qs with
  | nil => cases qs <;> simp [substituted, substitutions]
  | cons e es ih => cases qs <;> simp [substituted, substitutions, ih]

/-- **The printed forms of a tree**: the texts of its lexemes. -/
def Prints (e : Expr) (text : String) : Prop := Spells e.lexemes text.toList

/-- The printed form of a tree with blanks only where lexemes would run together. -/
def printed (e : Expr) : String := String.ofList (spelled e.lexemes)

end Expr

end MiniTemplate.Script
