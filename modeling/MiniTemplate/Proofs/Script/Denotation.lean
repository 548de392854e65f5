import Mathlib.Data.List.Forall2
import MiniTemplate.Proofs.Script.Operators
import MiniTemplate.Proofs.Script.Outline
import MiniTemplate.Proofs.Script.Passage

/-!
# The grammar of expressions

`Denotes rank ls e` is the grammar of the expressions that have a tree, said without the parser: the
symbols `ls` are an expression of a rank, and `e` is its tree. Errors that do not stop a parser are
no matter of the grammar: it takes keywords with escapes, template text whose escapes mean nothing,
and any mixture of operators.

An initialiser in an object (`{a = 1}`) has no place in the grammar. It is dropped from the tree, so
phrases with one are told apart: `Phrase.initialisers` counts them, and `Phrase.DenotedBy` says of a
phrase without any that symbols denote its tree.
-/

namespace MiniTemplate.Script

/-! ## Expressions and their trees -/

/-- The kinds of expressions, by how tightly they hold together. -/
inductive Rank where
  /-- With the comma operator. -/
  | expression
  /-- Without it. -/
  | assignment
  /-- Operands joined by operators that bind tighter than a bound. -/
  | binary (bound : Nat)
  /-- An operand with unary operators. -/
  | unary
  /-- An operand with member accesses and calls. -/
  | operand

/-- The rank of the left operand of an operator; only powers group to the right. -/
def Rank.left (operator : String) (precedence : Nat) : Rank :=
  if operator == "**" then .unary else .binary (precedence - 1)

/-- **Items up to a closing punctuator**, divided by commas. A comma may stand before the closing
punctuator, and follows every hole. -/
inductive Separated {α : Type} (close : String) (item : List Symbol → α → Prop)
    (hole : α → Prop) : List Symbol → List α → Prop where
  | none : Separated close item hole [.mark close] []
  | last {ls : List Symbol} {a : α} (first : item ls a) (solid : ¬ hole a) :
      Separated close item hole (ls ++ [.mark close]) [a]
  | more {ls ms : List Symbol} {a : α} {as : List α} (first : item ls a)
      (later : Separated close item hole ms as) :
      Separated close item hole (ls ++ .mark "," :: ms) (a :: as)

section
variable (value : List Symbol → Expr → Prop)

/-- What follows template text: nothing after the last of it, else a substitution and more. -/
inductive Substitutions : Bool → List Symbol → List String → List Expr → Prop where
  | none : Substitutions true [] [] []
  | more {ls ms : List Symbol} {e : Expr} {text : Option String} {last : Bool}
      {quasis : List String} {es : List Expr} (first : value ls e)
      (later : Substitutions last ms quasis es) :
      Substitutions false (ls ++ .resumed text last :: ms) (text.getD "" :: quasis) (e :: es)

/-- An item of an array. -/
inductive IsElement : List Symbol → Option Expr → Prop where
  | hole : IsElement [] none
  | plain {ls : List Symbol} {e : Expr} (item : value ls e) : IsElement ls (some e)
  | spread {ls : List Symbol} {e : Expr} (item : value ls e) :
      IsElement (.mark "..." :: ls) (some (.spread e))

/-- An argument of a call. -/
inductive IsArgument : List Symbol → Expr → Prop where
  | plain {ls : List Symbol} {e : Expr} (item : value ls e) : IsArgument ls e
  | spread {ls : List Symbol} {e : Expr} (item : value ls e) :
      IsArgument (.mark "..." :: ls) (.spread e)

/-- The key of an object's member, and whether it is computed. -/
inductive IsPropertyKey : List Symbol → Expr → Bool → Prop where
  | name (w : String) (escaped : Bool) :
      IsPropertyKey [.plain (.word w escaped)] (.identifier w) false
  | string (text : String) : IsPropertyKey [.plain (.string text)] (.string text) false
  | number (x : Binary64) :
      IsPropertyKey [.plain (.number (.double x))] (.literal (.number x)) false
  | computed {ls : List Symbol} {e : Expr} (inside : value ls e) :
      IsPropertyKey (.mark "[" :: (ls ++ [.mark "]"])) e true

/-- A member of an object. -/
inductive IsProperty : List Symbol → Property Expr → Prop where
  | pair {ls ms : List Symbol} {key e : Expr} {computed : Bool}
      (first : IsPropertyKey value ls key computed) (second : value ms e) :
      IsProperty (ls ++ .mark ":" :: ms) (.pair key e computed)
  | shorthand {w : String} (escaped : Bool) (named : isName w) :
      IsProperty [.plain (.word w escaped)] (.pair (.identifier w) (.identifier w) false)
  | spread {ls : List Symbol} {e : Expr} (item : value ls e) :
      IsProperty (.mark "..." :: ls) (.spread e)

end

/-- The punctuator of an optional link. -/
def optionalPoint (optional : Bool) : List Symbol := if optional then [.mark "?."] else []

/-- **The symbols of an expression and its tree.** -/
inductive Denotes : Rank → List Symbol → Expr → Prop where
  | name {w : String} (escaped : Bool) (named : isName w) :
      Denotes .operand [.plain (.word w escaped)] (.identifier w)
  | null (escaped : Bool) : Denotes .operand [.plain (.word "null" escaped)] (.literal .null)
  | true (escaped : Bool) : Denotes .operand [.plain (.word "true" escaped)] (.literal (.bool true))
  | false (escaped : Bool) :
      Denotes .operand [.plain (.word "false" escaped)] (.literal (.bool false))
  | number (x : Binary64) :
      Denotes .operand [.plain (.number (.double x))] (.literal (.number x))
  | string (text : String) : Denotes .operand [.plain (.string text)] (.literal (.string text))
  | template {ls : List Symbol} {quasis : List String} {es : List Expr} (text : Option String)
      (last : Bool) (rest : Substitutions (Denotes .expression) last ls quasis es) :
      Denotes .operand (.plain (.template text last) :: ls) (.template (text.getD "" :: quasis) es)
  | array {ls : List Symbol} {es : List (Option Expr)}
      (items : Separated "]" (IsElement (Denotes .assignment)) (· = none) ls es) :
      Denotes .operand (.mark "[" :: ls) (.array es)
  | object {ls : List Symbol} {properties : List (Property Expr)}
      (items : Separated "\x7d" (IsProperty (Denotes .assignment)) (fun _ => False) ls properties) :
      Denotes .operand (.mark "\x7b" :: ls) (.object properties)
  | parens {ls : List Symbol} {e : Expr} (inside : Denotes .expression ls e) :
      Denotes .operand (.mark "(" :: (ls ++ [.mark ")"])) e
  | member {ls : List Symbol} {e : Expr} (w : String) (escaped optional : Bool)
      (base : Denotes .operand ls e) :
      Denotes .operand
        (ls ++ [.mark (if optional then "?." else "."), .plain (.word w escaped)])
        (.member e (.identifier w) false optional)
  | index {ls ms : List Symbol} {e i : Expr} (optional : Bool) (base : Denotes .operand ls e)
      (inside : Denotes .expression ms i) :
      Denotes .operand (ls ++ (optionalPoint optional ++ .mark "[" :: (ms ++ [.mark "]"])))
        (.member e i true optional)
  | call {ls ms : List Symbol} {e : Expr} {es : List Expr} (optional : Bool)
      (callee : Denotes .operand ls e)
      (arguments : Separated ")" (IsArgument (Denotes .assignment)) (fun _ => False) ms es) :
      Denotes .operand (ls ++ (optionalPoint optional ++ .mark "(" :: ms)) (.call e es optional)
  | operand {ls : List Symbol} {e : Expr} (alone : Denotes .operand ls e) : Denotes .unary ls e
  | sign {ls : List Symbol} {e : Expr} {m : String} (known : m ∈ ["+", "-", "~", "!"])
      (argument : Denotes .unary ls e) : Denotes .unary (.mark m :: ls) (.unary m e)
  | keyword {ls : List Symbol} {e : Expr} {w : String} (escaped : Bool)
      (known : w ∈ ["typeof", "void", "delete"]) (argument : Denotes .unary ls e) :
      Denotes .unary (.plain (.word w escaped) :: ls) (.unary w e)
  | unary {ls : List Symbol} {e : Expr} (bound : Nat) (alone : Denotes .unary ls e) :
      Denotes (.binary bound) ls e
  | joined {ls ms : List Symbol} {left right : Expr} {bound precedence : Nat} {operator : String}
      {t : Token} (known : binaryOperator? {} t = some (operator, precedence))
      (binds : continues bound operator precedence)
      (first : Denotes (.left operator precedence) ls left)
      (second : Denotes (.binary precedence) ms right) :
      Denotes (.binary bound) (ls ++ .plain t :: ms) (.joined operator left right)
  | operands {ls : List Symbol} {e : Expr} (alone : Denotes (.binary 0) ls e) :
      Denotes .assignment ls e
  | conditional {ls ms ns : List Symbol} {test consequent alternate : Expr}
      (first : Denotes (.binary 0) ls test) (second : Denotes .assignment ms consequent)
      (third : Denotes .assignment ns alternate) :
      Denotes .assignment (ls ++ .mark "?" :: (ms ++ .mark ":" :: ns))
        (.conditional test consequent alternate)
  | single {ls : List Symbol} {e : Expr} (alone : Denotes .assignment ls e) :
      Denotes .expression ls e
  | sequence {ls : List Symbol} {e : Expr} {rows : List (List Symbol)} {es : List Expr}
      (first : Denotes .assignment ls e) (several : rows ≠ [])
      (others : List.Forall₂ (Denotes .assignment) rows es) :
      Denotes .expression (ls ++ rows.flatMap (.mark "," :: ·)) (.sequence (e :: es))

/-! ## Initialisers of a phrase -/

/-- The sum of a count over a list. -/
@[simp] def total {α : Type} (count : α → Nat) : List α → Nat
  | [] => 0
  | a :: rest => count a + total count rest

namespace Phrase

mutual

/-- The number of initialisers in the objects of a phrase. -/
def initialisers : Phrase → Nat
  | .name _ | .literal _ | .foreign _ => 0
  | .template _ parts | .sequence parts => initialisersAll parts
  | .array items _ => initialisersItems items
  | .object entries _ => initialisersEntries entries
  | .member base _ _ => base.initialisers
  | .index base key _ => base.initialisers + key.initialisers
  | .call callee arguments _ => callee.initialisers + initialisersArguments arguments
  | .chain body | .parens body => body.initialisers
  | .unary _ argument => argument.initialisers
  | .binary _ left right | .logical _ left right => left.initialisers + right.initialisers
  | .conditional test consequent alternate =>
    test.initialisers + consequent.initialisers + alternate.initialisers

/-- The same for several phrases. -/
def initialisersAll : List Phrase → Nat
  | [] => 0
  | p :: rest => p.initialisers + initialisersAll rest

/-- The same for the items of an array. -/
def initialisersItems : List (Item Phrase) → Nat
  | [] => 0
  | .hole :: rest => initialisersItems rest
  | .plain p :: rest | .spread p :: rest => p.initialisers + initialisersItems rest

/-- The same for the arguments of a call. -/
def initialisersArguments : List (Argument Phrase) → Nat
  | [] => 0
  | .plain p :: rest | .spread p :: rest => p.initialisers + initialisersArguments rest

/-- The same for a key. -/
def initialisersKey : Key Phrase → Nat
  | .computed p => p.initialisers
  | .name _ | .string _ | .number _ | .bigInteger => 0

/-- The same for the members of an object; functions are not looked into. -/
def initialisersEntries : List (Entry Phrase) → Nat
  | [] => 0
  | .pair key value :: rest => initialisersKey key + value.initialisers + initialisersEntries rest
  | .shorthand _ :: rest | .method _ :: rest | .accessor _ :: rest => initialisersEntries rest
  | .initialised _ :: rest => 1 + initialisersEntries rest
  | .spread p :: rest => p.initialisers + initialisersEntries rest

end

theorem initialisersItems_eq (items : List (Item Phrase)) :
    initialisersItems items = total (fun i => initialisersItems [i]) items := by
  induction items with
  | nil => rfl
  | cons i items ih => cases i <;> simp [initialisersItems, ih]

theorem initialisersArguments_eq (arguments : List (Argument Phrase)) :
    initialisersArguments arguments = total (fun a => initialisersArguments [a]) arguments := by
  induction arguments with
  | nil => rfl
  | cons a arguments ih => cases a <;> simp [initialisersArguments, ih]

theorem initialisersEntries_eq (entries : List (Entry Phrase)) :
    initialisersEntries entries = total (fun k => initialisersEntries [k]) entries := by
  induction entries with
  | nil => rfl
  | cons k entries ih => cases k <;> simp [initialisersEntries, ih]

mutual

/-- **A target claims no more initialisers than it has.** -/
theorem le_initialisers_of_target? : ∀ (p : Phrase) {n : Nat}, p.target? = some n →
    n ≤ p.initialisers
  | .array items comma, n, claimed => by
    rw [target?] at claimed
    exact le_initialisersItems items claimed
  | .object entries comma, n, claimed => by
    rw [target?] at claimed
    exact le_initialisersEntries entries claimed
  | .name _, n, claimed | .literal _, n, claimed | .template .., n, claimed
  | .member .., n, claimed | .index .., n, claimed | .call .., n, claimed | .chain _, n, claimed
  | .parens _, n, claimed | .unary .., n, claimed | .binary .., n, claimed
  | .logical .., n, claimed | .conditional .., n, claimed | .sequence _, n, claimed
  | .foreign _, n, claimed => by
    simp only [target?, Option.ite_none_right_eq_some, Option.some.injEq] at claimed
    omega

/-- The same for a part of a pattern. -/
theorem le_initialisers_of_targetPart? : ∀ (p : Phrase) {n : Nat}, p.targetPart? = some n →
    n ≤ p.initialisers
  | .array items comma, n, claimed => by
    rw [targetPart?] at claimed
    exact le_initialisersItems items claimed
  | .object entries comma, n, claimed => by
    rw [targetPart?] at claimed
    exact le_initialisersEntries entries claimed
  | .foreign construct, n, claimed => by
    cases construct <;> simp only [targetPart?, isPlace, Option.some.injEq, reduceCtorEq,
      Bool.false_eq_true, if_false, if_true] at claimed <;> omega
  | .name _, n, claimed | .literal _, n, claimed | .template .., n, claimed
  | .member .., n, claimed | .index .., n, claimed | .call .., n, claimed | .chain _, n, claimed
  | .parens _, n, claimed | .unary .., n, claimed | .binary .., n, claimed
  | .logical .., n, claimed | .conditional .., n, claimed | .sequence _, n, claimed => by
    simp only [targetPart?, Option.ite_none_right_eq_some, Option.some.injEq] at claimed
    omega

theorem le_initialisersItems {comma : Bool} : ∀ (items : List (Item Phrase)) {n : Nat},
    targetItems? comma items = some n → n ≤ initialisersItems items
  | [], n, claimed => by
    simp only [targetItems?, Option.some.injEq] at claimed
    omega
  | .hole :: rest, n, claimed => by
    rw [targetItems?] at claimed
    exact le_initialisersItems rest claimed
  | .plain p :: rest, n, claimed => by
    simp only [targetItems?, Option.bind_eq_bind, Option.bind_eq_some_iff] at claimed
    obtain ⟨k, first, m, later, ⟨⟩⟩ := claimed
    have := le_initialisers_of_targetPart? p first
    have := le_initialisersItems rest later
    simp only [initialisersItems]
    omega
  | .spread p :: rest, n, claimed => by
    simp only [targetItems?, Option.ite_none_right_eq_some] at claimed
    have := le_initialisers_of_target? p claimed.2
    simp only [initialisersItems]
    omega

theorem le_initialisersEntries {comma : Bool} : ∀ (entries : List (Entry Phrase)) {n : Nat},
    targetEntries? comma entries = some n → n ≤ initialisersEntries entries
  | [], n, claimed => by
    simp only [targetEntries?, Option.some.injEq] at claimed
    omega
  | .shorthand _ :: rest, n, claimed => by
    rw [targetEntries?] at claimed
    exact le_initialisersEntries rest claimed
  | .initialised _ :: rest, n, claimed => by
    simp only [targetEntries?, Option.bind_eq_bind, Option.bind_eq_some_iff] at claimed
    obtain ⟨m, later, ⟨⟩⟩ := claimed
    have := le_initialisersEntries rest later
    simp only [initialisersEntries]
    omega
  | .pair key p :: rest, n, claimed => by
    simp only [targetEntries?, Option.bind_eq_bind, Option.bind_eq_some_iff] at claimed
    obtain ⟨k, first, m, later, ⟨⟩⟩ := claimed
    have := le_initialisers_of_targetPart? p first
    have := le_initialisersEntries rest later
    simp only [initialisersEntries]
    omega
  | .spread p :: rest, n, claimed => by
    simp only [targetEntries?, Option.ite_none_right_eq_some, Option.some.injEq] at claimed
    omega
  | .method _ :: rest, n, claimed | .accessor _ :: rest, n, claimed => by
    simp [targetEntries?] at claimed

end

end Phrase

/-! ## Trees of phrases without initialisers -/

/-- **The tree that a phrase bears**, if it has no initialiser. -/
structure Phrase.Bears (p : Phrase) (e : Expr) : Prop where
  lower : p.lower = .ok e
  plain : p.initialisers = 0

/-- The element that an item of an array bears. -/
inductive Item.Bears : Item Phrase → Option Expr → Prop where
  | hole : Item.Bears .hole none
  | plain {p : Phrase} {e : Expr} (value : p.Bears e) : Item.Bears (.plain p) (some e)
  | spread {p : Phrase} {e : Expr} (value : p.Bears e) : Item.Bears (.spread p) (some (.spread e))

/-- The tree that an argument of a call bears. -/
inductive Argument.Bears : Argument Phrase → Expr → Prop where
  | plain {p : Phrase} {e : Expr} (value : p.Bears e) : Argument.Bears (.plain p) e
  | spread {p : Phrase} {e : Expr} (value : p.Bears e) : Argument.Bears (.spread p) (.spread e)

/-- The tree that a key bears, and whether it is computed. -/
inductive Key.Bears : Key Phrase → Expr → Bool → Prop where
  | name (text : String) : Key.Bears (.name text) (.identifier text) false
  | string (text : String) : Key.Bears (.string text) (.string text) false
  | number (x : Binary64) : Key.Bears (.number x) (.literal (.number x)) false
  | computed {p : Phrase} {e : Expr} (value : p.Bears e) : Key.Bears (.computed p) e true

/-- The property that a member of an object bears. -/
inductive Entry.Bears : Entry Phrase → Property Expr → Prop where
  | pair {k : Key Phrase} {p : Phrase} {key e : Expr} {computed : Bool}
      (first : k.Bears key computed) (second : p.Bears e) :
      Entry.Bears (.pair k p) (.pair key e computed)
  | shorthand (text : String) :
      Entry.Bears (.shorthand text) (.pair (.identifier text) (.identifier text) false)
  | spread {p : Phrase} {e : Expr} (value : p.Bears e) : Entry.Bears (.spread p) (.spread e)

namespace Phrase

theorem bears_all {ps : List Phrase} {es : List Expr} (lower : lowerAll ps = .ok es)
    (plain : initialisersAll ps = 0) : List.Forall₂ Bears ps es := by
  induction ps generalizing es with
  | nil =>
    cases lower
    exact .nil
  | cons p ps ih =>
    simp only [lowerAll, bind_ok_iff, pure_ok_iff] at lower
    obtain ⟨e, first, es, later, rfl⟩ := lower
    simp only [initialisersAll, Nat.add_eq_zero_iff] at plain
    exact .cons ⟨first, plain.1⟩ (ih later plain.2)

theorem bears_items {items : List (Item Phrase)} {es : List (Option Expr)}
    (lower : lowerItems items = .ok es) (plain : initialisersItems items = 0) :
    List.Forall₂ Item.Bears items es := by
  induction items generalizing es with
  | nil =>
    cases lower
    exact .nil
  | cons i items ih =>
    cases i with
    | hole =>
      simp only [lowerItems, bind_ok_iff, pure_ok_iff] at lower
      obtain ⟨es, later, rfl⟩ := lower
      exact .cons .hole (ih later plain)
    | plain p =>
      simp only [lowerItems, bind_ok_iff, pure_ok_iff] at lower
      obtain ⟨e, first, es, later, rfl⟩ := lower
      simp only [initialisersItems, Nat.add_eq_zero_iff] at plain
      exact .cons (.plain ⟨first, plain.1⟩) (ih later plain.2)
    | spread p =>
      simp only [lowerItems, bind_ok_iff, pure_ok_iff] at lower
      obtain ⟨e, first, es, later, rfl⟩ := lower
      simp only [initialisersItems, Nat.add_eq_zero_iff] at plain
      exact .cons (.spread ⟨first, plain.1⟩) (ih later plain.2)

theorem bears_arguments {arguments : List (Argument Phrase)} {es : List Expr}
    (lower : lowerArguments arguments = .ok es) (plain : initialisersArguments arguments = 0) :
    List.Forall₂ Argument.Bears arguments es := by
  induction arguments generalizing es with
  | nil =>
    cases lower
    exact .nil
  | cons a arguments ih =>
    cases a with
    | plain p =>
      simp only [lowerArguments, bind_ok_iff, pure_ok_iff] at lower
      obtain ⟨e, first, es, later, rfl⟩ := lower
      simp only [initialisersArguments, Nat.add_eq_zero_iff] at plain
      exact .cons (.plain ⟨first, plain.1⟩) (ih later plain.2)
    | spread p =>
      simp only [lowerArguments, bind_ok_iff, pure_ok_iff] at lower
      obtain ⟨e, first, es, later, rfl⟩ := lower
      simp only [initialisersArguments, Nat.add_eq_zero_iff] at plain
      exact .cons (.spread ⟨first, plain.1⟩) (ih later plain.2)

theorem bears_key {k : Key Phrase} {e : Expr} (lower : lowerKey k = .ok e)
    (plain : initialisersKey k = 0) : k.Bears e (isComputed k) := by
  cases k with
  | name text =>
    cases lower
    exact .name text
  | string text =>
    cases lower
    exact .string text
  | number x =>
    cases lower
    exact .number x
  | bigInteger => cases lower
  | computed p => exact .computed ⟨lower, plain⟩

theorem bears_entries {entries : List (Entry Phrase)} {properties : List (Property Expr)}
    (lower : lowerEntries entries = .ok properties) (plain : initialisersEntries entries = 0) :
    List.Forall₂ Entry.Bears entries properties := by
  induction entries generalizing properties with
  | nil =>
    cases lower
    exact .nil
  | cons k entries ih =>
    cases k with
    | pair k p =>
      rw [lowerEntries_pair_ok_iff] at lower
      obtain ⟨key, first, e, second, properties, later, rfl⟩ := lower
      simp only [initialisersEntries, Nat.add_eq_zero_iff] at plain
      exact .cons (.pair (bears_key first plain.1.1) ⟨second, plain.1.2⟩) (ih later plain.2)
    | shorthand text =>
      simp only [lowerEntries, bind_ok_iff, pure_ok_iff] at lower
      obtain ⟨properties, later, rfl⟩ := lower
      exact .cons (.shorthand text) (ih later plain)
    | initialised text =>
      simp only [initialisersEntries] at plain
      omega
    | method k => simp [lowerEntries] at lower
    | accessor k => simp [lowerEntries, bind_ok_iff] at lower
    | spread p =>
      simp only [lowerEntries, bind_ok_iff, pure_ok_iff] at lower
      obtain ⟨e, first, properties, later, rfl⟩ := lower
      simp only [initialisersEntries, Nat.add_eq_zero_iff] at plain
      exact .cons (.spread ⟨first, plain.1⟩) (ih later plain.2)

end Phrase

/-! ## Symbols of phrases -/

/-- **The symbols denote the tree that a phrase bears**, if it bears one. -/
def Phrase.DenotedBy (p : Phrase) (rank : Rank) (ls : List Symbol) : Prop :=
  ∀ e, p.Bears e → Denotes rank ls e

/-- The same for an item of an array. -/
def Item.DenotedBy (i : Item Phrase) (ls : List Symbol) : Prop :=
  ∀ e, i.Bears e → IsElement (Denotes .assignment) ls e

/-- The same for an argument of a call. -/
def Argument.DenotedBy (a : Argument Phrase) (ls : List Symbol) : Prop :=
  ∀ e, a.Bears e → IsArgument (Denotes .assignment) ls e

/-- The same for a key. -/
def Key.DenotedBy (k : Key Phrase) (ls : List Symbol) : Prop :=
  ∀ e computed, k.Bears e computed → IsPropertyKey (Denotes .assignment) ls e computed

/-- The same for a member of an object. -/
def Entry.DenotedBy (k : Entry Phrase) (ls : List Symbol) : Prop :=
  ∀ property, k.Bears property → IsProperty (Denotes .assignment) ls property

/-- Items that are read one by one denote what they bear one by one. -/
theorem Separated.map {α β : Type} {close : String} {item : List Symbol → α → Prop}
    {item' : List Symbol → β → Prop} {hole : α → Prop} {hole' : β → Prop} {bears : α → β → Prop}
    {ls : List Symbol} {as : List α} {bs : List β} (read : Separated close item hole ls as)
    (each : ∀ ls a b, item ls a → bears a b → item' ls b)
    (holes : ∀ a b, bears a b → hole' b → hole a) (both : List.Forall₂ bears as bs) :
    Separated close item' hole' ls bs := by
  induction read generalizing bs with
  | none =>
    cases both
    exact .none
  | last first solid =>
    obtain _ | ⟨bears, ⟨⟩⟩ := both
    exact .last (each _ _ _ first bears) fun hole => solid (holes _ _ bears hole)
  | more first _ ih =>
    obtain _ | ⟨bears, others⟩ := both
    exact .more (each _ _ _ first bears) (ih others)

namespace Phrase

variable {p q : Phrase} {ls ms : List Symbol}

/-- A construct that trees do not hold bears none. -/
theorem denotedBy_foreign (construct : Construct) (rank : Rank) (ls : List Symbol) :
    (Phrase.foreign construct).DenotedBy rank ls := by
  rintro e ⟨⟨⟩, -⟩

theorem denotedBy_name {w : String} (escaped : Bool) (named : isName w) :
    (Phrase.name w).DenotedBy .operand [.plain (.word w escaped)] := by
  rintro e ⟨⟨⟩, -⟩
  exact .name escaped named

theorem DenotedBy.unary (alone : p.DenotedBy .operand ls) : p.DenotedBy .unary ls :=
  fun e bears => .operand (alone e bears)

theorem DenotedBy.binary (alone : p.DenotedBy .unary ls) (bound : Nat) :
    p.DenotedBy (.binary bound) ls :=
  fun e bears => .unary bound (alone e bears)

theorem DenotedBy.left (alone : p.DenotedBy .unary ls) (operator : String) (precedence : Nat) :
    p.DenotedBy (.left operator precedence) ls := by
  unfold Rank.left
  split
  · exact alone
  · exact alone.binary _

theorem DenotedBy.assignment (alone : p.DenotedBy (.binary 0) ls) : p.DenotedBy .assignment ls :=
  fun e bears => .operands (alone e bears)

theorem DenotedBy.expression (alone : p.DenotedBy .assignment ls) : p.DenotedBy .expression ls :=
  fun e bears => .single (alone e bears)

theorem DenotedBy.parens (inside : p.DenotedBy .expression ls) :
    (Phrase.parens p).DenotedBy .operand (.mark "(" :: (ls ++ [.mark ")"])) := by
  rintro e ⟨lower, plain⟩
  exact .parens (inside e ⟨lower, plain⟩)

/-- The end of an optional chain is not written. -/
theorem DenotedBy.chain (inside : p.DenotedBy .operand ls) :
    (Phrase.chain p).DenotedBy .operand ls := by
  rintro e ⟨lower, plain⟩
  rw [Phrase.lower] at lower
  split at lower
  · exact inside e ⟨lower, plain⟩
  · cases lower

theorem DenotedBy.member (base : p.DenotedBy .operand ls) (w : String) (escaped optional : Bool) :
    (Phrase.member p w optional).DenotedBy .operand
      (ls ++ [.mark (if optional then "?." else "."), .plain (.word w escaped)]) := by
  rintro e ⟨lower, plain⟩
  simp only [Phrase.lower, bind_ok_iff, pure_ok_iff] at lower
  obtain ⟨b, lower, rfl⟩ := lower
  exact .member w escaped optional (base b ⟨lower, plain⟩)

theorem DenotedBy.index (base : p.DenotedBy .operand ls) (inside : q.DenotedBy .expression ms)
    (optional : Bool) : (Phrase.index p q optional).DenotedBy .operand
      (ls ++ (optionalPoint optional ++ .mark "[" :: (ms ++ [.mark "]"]))) := by
  rintro e ⟨lower, plain⟩
  simp only [Phrase.lower, bind_ok_iff, pure_ok_iff] at lower
  obtain ⟨b, first, i, second, rfl⟩ := lower
  simp only [initialisers, Nat.add_eq_zero_iff] at plain
  exact .index optional (base b ⟨first, plain.1⟩) (inside i ⟨second, plain.2⟩)

theorem DenotedBy.call {arguments : List (Argument Phrase)} (callee : p.DenotedBy .operand ls)
    (read : Separated ")" (fun ls a => a.DenotedBy ls) (fun _ => False) ms arguments)
    (optional : Bool) : (Phrase.call p arguments optional).DenotedBy .operand
      (ls ++ (optionalPoint optional ++ .mark "(" :: ms)) := by
  rintro e ⟨lower, plain⟩
  simp only [Phrase.lower, bind_ok_iff, pure_ok_iff] at lower
  obtain ⟨es, second, c, first, rfl⟩ := lower
  simp only [initialisers, Nat.add_eq_zero_iff] at plain
  refine .call optional (callee c ⟨first, plain.1⟩) ?_
  exact read.map (fun _ _ e denoted bears => denoted e bears) (fun _ _ _ hole => hole)
    (bears_arguments second plain.2)

theorem denotedBy_array {items : List (Item Phrase)} (comma : Bool)
    (read : Separated "]" (fun ls i => i.DenotedBy ls) (· = .hole) ls items) :
    (Phrase.array items comma).DenotedBy .operand (.mark "[" :: ls) := by
  rintro e ⟨lower, plain⟩
  simp only [Phrase.lower, bind_ok_iff, pure_ok_iff] at lower
  obtain ⟨es, lower, rfl⟩ := lower
  refine .array (read.map (fun _ _ e denoted bears => denoted e bears) ?_ (bears_items lower plain))
  rintro i _ bears rfl
  cases bears
  rfl

theorem denotedBy_object {entries : List (Entry Phrase)} (comma : Bool)
    (read : Separated "\x7d" (fun ls k => k.DenotedBy ls) (fun _ => False) ls entries) :
    (Phrase.object entries comma).DenotedBy .operand (.mark "\x7b" :: ls) := by
  rintro e ⟨lower, plain⟩
  simp only [Phrase.lower, bind_ok_iff, pure_ok_iff] at lower
  obtain ⟨properties, lower, rfl⟩ := lower
  exact .object (read.map (fun _ _ e denoted bears => denoted e bears) (fun _ _ _ hole => hole)
    (bears_entries lower plain))

theorem denotedBy_template {text : Option String} {last : Bool} {quasis : List String}
    {parts : List Phrase} (read : ∀ es, List.Forall₂ Bears parts es →
      Substitutions (Denotes .expression) last ls quasis es) :
    (Phrase.template (text.getD "" :: quasis) parts).DenotedBy .operand
      (.plain (.template text last) :: ls) := by
  rintro e ⟨lower, plain⟩
  simp only [Phrase.lower, bind_ok_iff, pure_ok_iff] at lower
  obtain ⟨es, lower, rfl⟩ := lower
  exact .template text last (read es (bears_all lower plain))

theorem DenotedBy.sign (argument : p.DenotedBy .unary ls) {m : String}
    (known : m ∈ ["+", "-", "~", "!"]) : (Phrase.unary m p).DenotedBy .unary (.mark m :: ls) := by
  rintro e ⟨lower, plain⟩
  simp only [Phrase.lower, bind_ok_iff, pure_ok_iff] at lower
  obtain ⟨a, lower, rfl⟩ := lower
  exact .sign known (argument a ⟨lower, plain⟩)

theorem DenotedBy.keyword (argument : p.DenotedBy .unary ls) {w : String} (escaped : Bool)
    (known : w ∈ ["typeof", "void", "delete"]) :
    (Phrase.unary w p).DenotedBy .unary (.plain (.word w escaped) :: ls) := by
  rintro e ⟨lower, plain⟩
  simp only [Phrase.lower, bind_ok_iff, pure_ok_iff] at lower
  obtain ⟨a, lower, rfl⟩ := lower
  exact .keyword escaped known (argument a ⟨lower, plain⟩)

theorem initialisers_joined (operator : String) (p q : Phrase) :
    (joined operator p q).initialisers = p.initialisers + q.initialisers := by
  unfold joined
  split <;> rfl

/-- Two operands joined by an operator bear a tree iff both bear one. -/
theorem bears_joined {operator : String} {e : Expr} (bears : (joined operator p q).Bears e) :
    ∃ left right, p.Bears left ∧ q.Bears right ∧ e = .joined operator left right := by
  obtain ⟨lower, plain⟩ := bears
  rw [initialisers_joined, Nat.add_eq_zero_iff] at plain
  have both : ∃ left, p.lower = .ok left ∧ ∃ right, q.lower = .ok right := by
    unfold joined at lower
    split at lower
    · simp only [Phrase.lower, bind_ok_iff] at lower
      obtain ⟨left, first, right, second, -⟩ := lower
      exact ⟨left, first, right, second⟩
    · simp only [Phrase.lower, bind_ok_iff] at lower
      obtain ⟨left, first, right, second, -⟩ := lower
      exact ⟨left, first, right, second⟩
  obtain ⟨left, first, right, second⟩ := both
  rw [lower_joined first second] at lower
  exact ⟨left, right, ⟨first, plain.1⟩, ⟨second, plain.2⟩, (Except.ok.inj lower).symm⟩

theorem DenotedBy.joined {t : Token} {operator : String} {precedence bound : Nat}
    (known : binaryOperator? {} t = some (operator, precedence))
    (binds : continues bound operator precedence)
    (first : p.DenotedBy (.left operator precedence) ls)
    (second : q.DenotedBy (.binary precedence) ms) :
    (Phrase.joined operator p q).DenotedBy (.binary bound) (ls ++ .plain t :: ms) := by
  intro e bears
  obtain ⟨left, right, bearsLeft, bearsRight, rfl⟩ := bears_joined bears
  exact .joined known binds (first left bearsLeft) (second right bearsRight)

theorem DenotedBy.conditional {o : Phrase} {ns : List Symbol} (first : p.DenotedBy (.binary 0) ls)
    (second : q.DenotedBy .assignment ms) (third : o.DenotedBy .assignment ns) :
    (Phrase.conditional p q o).DenotedBy .assignment
      (ls ++ .mark "?" :: (ms ++ .mark ":" :: ns)) := by
  rintro e ⟨lower, plain⟩
  simp only [Phrase.lower, bind_ok_iff, pure_ok_iff] at lower
  obtain ⟨t, test, c, consequent, a, alternate, rfl⟩ := lower
  simp only [initialisers, Nat.add_eq_zero_iff] at plain
  exact .conditional (first t ⟨test, plain.1.1⟩) (second c ⟨consequent, plain.1.2⟩)
    (third a ⟨alternate, plain.2⟩)

theorem denotes_all {rows : List (List Symbol)} {ps : List Phrase} {es : List Expr}
    (read : List.Forall₂ (fun row p => p.DenotedBy .assignment row) rows ps)
    (bears : List.Forall₂ Bears ps es) : List.Forall₂ (Denotes .assignment) rows es := by
  induction read generalizing es with
  | nil =>
    cases bears
    exact .nil
  | cons first _ ih =>
    obtain _ | ⟨bears, others⟩ := bears
    exact .cons (first _ bears) (ih others)

theorem DenotedBy.sequence {ps : List Phrase} {rows : List (List Symbol)}
    (first : p.DenotedBy .assignment ls) (several : ps ≠ [])
    (others : List.Forall₂ (fun row p => p.DenotedBy .assignment row) rows ps) :
    (Phrase.sequence (p :: ps)).DenotedBy .expression
      (ls ++ rows.flatMap (.mark "," :: ·)) := by
  rintro e ⟨lower, plain⟩
  simp only [Phrase.lower, bind_ok_iff, pure_ok_iff] at lower
  obtain ⟨es, lower, rfl⟩ := lower
  obtain _ | ⟨bears, bearOthers⟩ := bears_all lower plain
  refine .sequence (first _ bears) ?_ (denotes_all others bearOthers)
  rintro rfl
  cases others
  exact several rfl

end Phrase

end MiniTemplate.Script
