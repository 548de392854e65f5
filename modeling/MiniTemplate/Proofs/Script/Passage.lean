import MiniTemplate.Proofs.Script.Reading
import MiniTemplate.Script.Parse

/-!
# What a parser passes over

A parser takes a stream from one place of a text to a later one. `Lexes cs ls rest` says that the
text `cs` is divided, from its start on, into the symbols `ls`, with `rest` after them. A symbol is
a token together with how it was come by, since the parser has template text resumed at a brace and
a regular expression read from a slash. `Parser.Moves` says of a parser that it skips nothing: from
wherever it starts, it ends after some symbols of the text, and no initialiser that awaits an
assignment is forgotten on the way. There is one lemma for each way of putting parsers together and
then one for each rule; here are those for functions, classes and arrows.
-/

namespace MiniTemplate.Script

/-! ## Symbols of a text -/

/-- A token, and how it was come by. -/
inductive Symbol where
  /-- A token as it is scanned. -/
  | plain (token : Token)
  /-- Template text that is resumed at the brace that closes a substitution. -/
  | resumed (text : Option String) (last : Bool)
  /-- A regular expression. -/
  | regularExpression
  deriving DecidableEq

namespace Symbol

/-- A punctuator. -/
abbrev mark (m : String) : Symbol := .plain (.mark m)

end Symbol

/-- The token at the start of a text, after blanks and comments, and the text after it. -/
def firstToken? (cs : List Char) : Option (Token × List Char) := do
  let (_, cs) ← skipGaps? false .blank cs
  Token.scan? cs

/-- **A text starts with a symbol**, blanks and comments apart. -/
inductive Starts : List Char → Symbol → List Char → Prop where
  | plain {cs rest : List Char} {token : Token} (first : firstToken? cs = some (token, rest)) :
      Starts cs (.plain token) rest
  | resumed {cs middle rest : List Char} {text : Option String} {last : Bool}
      (brace : firstToken? cs = some (.mark "\x7d", middle))
      (read : Token.template? middle = some (.template text last, rest)) :
      Starts cs (.resumed text last) rest
  | regularExpression {cs middle rest : List Char} {m : String}
      (slash : firstToken? cs = some (.mark m, middle)) (known : m = "/" ∨ m = "/=")
      (read : regularExpression? middle = some rest) : Starts cs .regularExpression rest

/-- **A text is divided into symbols**, up to a rest. -/
inductive Lexes : List Char → List Symbol → List Char → Prop where
  | done (cs : List Char) : Lexes cs [] cs
  | next {cs middle rest : List Char} {l : Symbol} {ls : List Symbol} (first : Starts cs l middle)
      (later : Lexes middle ls rest) : Lexes cs (l :: ls) rest

theorem Lexes.append {cs middle rest : List Char} {ls ms : List Symbol} (first : Lexes cs ls middle)
    (second : Lexes middle ms rest) : Lexes cs (ls ++ ms) rest := by
  induction first with
  | done => exact second
  | next starts _ ih => exact .next starts (ih second)

/-! ## Streams in a text -/

/-- The token at hand is the first of a text. -/
def Stream.Stands (s : Stream) (cs : List Char) : Prop := firstToken? cs = some (s.token, s.rest)

theorem Stream.stands_of_next? {s t : Stream} (next : s.next? = some t) : t.Stands s.rest := by
  simp only [Stream.next?, Option.bind_eq_bind, Option.bind_eq_some_iff] at next
  obtain ⟨⟨newline, cs⟩, skipped, ⟨token, rest⟩, scanned, ⟨⟩⟩ := next
  simp [Stream.Stands, firstToken?, skipped, scanned]

theorem Stream.unset_of_next? {s t : Stream} (next : s.next? = some t) : t.unset = s.unset := by
  simp only [Stream.next?, Option.bind_eq_bind, Option.bind_eq_some_iff] at next
  obtain ⟨-, -, -, -, ⟨⟩⟩ := next
  rfl

/-- **A stream has passed over symbols**, and at least `owed` more initialisers than before await an
assignment. -/
structure Passed (s : Stream) (ls : List Symbol) (owed : Nat) (t : Stream) : Prop where
  text : ∀ cs, s.Stands cs → ∃ rest, Lexes cs ls rest ∧ t.Stands rest
  unset : s.unset + owed ≤ t.unset

namespace Passed

variable {s t u : Stream} {ls ms : List Symbol} {n m : Nat}

/-- Nothing is passed where only the notes on errors change. -/
theorem stay (token : t.token = s.token) (rest : t.rest = s.rest) (unset : s.unset + n ≤ t.unset) :
    Passed s [] n t := by
  refine ⟨fun cs stands => ⟨cs, .done cs, ?_⟩, unset⟩
  rwa [Stream.Stands, token, rest]

theorem refl (s : Stream) : Passed s [] 0 s := stay rfl rfl (Nat.le_refl _)

theorem trans (first : Passed s ls n t) (second : Passed t ms m u) :
    Passed s (ls ++ ms) (n + m) u := by
  refine ⟨fun cs stands => ?_, ?_⟩
  · obtain ⟨middle, before, stands⟩ := first.text cs stands
    obtain ⟨rest, after, stands⟩ := second.text middle stands
    exact ⟨rest, before.append after, stands⟩
  · have := first.unset
    have := second.unset
    omega

/-- The token at hand is passed on the way to the next one. -/
theorem token (stands : t.Stands s.rest) (unset : s.unset ≤ t.unset) :
    Passed s [.plain s.token] 0 t :=
  ⟨fun _ first => ⟨s.rest, .next (.plain first) (.done _), stands⟩, unset⟩

theorem step (next : s.next? = some t) : Passed s [.plain s.token] 0 t :=
  token (Stream.stands_of_next? next) (Nat.le_of_eq (Stream.unset_of_next? next).symm)

/-- Template text is passed on the way to the token after it. -/
theorem resumed {text : Option String} {last : Bool} {rest : List Char}
    (brace : s.token = .mark "\x7d")
    (read : Token.template? s.rest = some (.template text last, rest)) (stands : t.Stands rest)
    (unset : s.unset ≤ t.unset) : Passed s [.resumed text last] 0 t := by
  refine ⟨fun cs first => ⟨rest, .next (.resumed ?_ read) (.done _), stands⟩, unset⟩
  rw [first, brace]

/-- A regular expression is passed on the way to the token after it. -/
theorem regularExpression {m : String} {rest : List Char} (slash : s.token = .mark m)
    (known : m = "/" ∨ m = "/=") (read : regularExpression? s.rest = some rest)
    (stands : t.Stands rest) (unset : s.unset ≤ t.unset) : Passed s [.regularExpression] 0 t := by
  refine ⟨fun cs first => ⟨rest, .next (.regularExpression ?_ known read) (.done _), stands⟩, unset⟩
  rw [first, slash]

end Passed

/-! ## Parsers that skip nothing -/

namespace Parser

variable {α β : Type}

/-- **A parser skips nothing** of the text, and forgets no initialiser. -/
def Moves (x : Parser α) : Prop := ∀ s a t, x s = some (a, t) → ∃ ls, Passed s ls 0 t

/-- What two parsers do one after the other. -/
theorem exists_of_bind {x : Parser α} {f : α → Parser β} {s t : Stream} {b : β}
    (run : (x >>= f) s = some (b, t)) : ∃ a u, x s = some (a, u) ∧ f a u = some (b, t) := by
  obtain ⟨⟨a, u⟩, first, second⟩ := Option.bind_eq_some_iff.1 run
  exact ⟨a, u, first, second⟩

theorem eq_of_advance {s t : Stream} {a : Unit} (run : advance s = some (a, t)) :
    s.next? = some t := by
  obtain ⟨_, _, ⟨⟩, run⟩ := exists_of_bind run
  cases next : s.next? with
  | none => simp [next, failure, StateT.failure] at run
  | some u =>
    rw [next] at run
    cases run
    rfl

@[grind ←]
theorem moves_pure (a : α) : Moves (pure a) := by
  rintro s _ t ⟨⟩
  exact ⟨[], .refl s⟩

@[grind ←]
theorem moves_failure : Moves (failure : Parser α) := by
  rintro s a t ⟨⟩

@[grind ←]
theorem Moves.bind {x : Parser α} {f : α → Parser β} (first : Moves x) (next : ∀ a, Moves (f a)) :
    Moves (x >>= f) := by
  intro s b t run
  obtain ⟨a, u, before, after⟩ := exists_of_bind run
  obtain ⟨ls, passed⟩ := first s a u before
  obtain ⟨ms, passed'⟩ := next a u b t after
  exact ⟨ls ++ ms, passed.trans passed'⟩

/-- A parser only looks, and leaves the stream where it is. -/
def Looks (x : Parser α) : Prop := ∀ s a t, x s = some (a, t) → t = s

theorem Looks.moves {x : Parser α} (looks : Looks x) : Moves x := by
  intro s a t run
  rw [looks s a t run]
  exact ⟨[], .refl s⟩

@[grind ←]
theorem looks_pure (a : α) : Looks (pure a) := by
  rintro s _ t ⟨⟩
  rfl

@[grind ←]
theorem Looks.bind {x : Parser α} {f : α → Parser β} (first : Looks x) (next : ∀ a, Looks (f a)) :
    Looks (x >>= f) := by
  intro s b t run
  obtain ⟨a, u, before, after⟩ := exists_of_bind run
  rw [next a u b t after, first s a u before]

@[grind ←]
theorem looks_get : Looks (get : Parser Stream) := by
  rintro s _ _ ⟨⟩
  rfl

@[grind ←]
theorem moves_get : Moves (get : Parser Stream) := looks_get.moves

@[grind ←]
theorem looks_token : Looks token := by
  rintro s _ _ ⟨⟩
  rfl

@[grind ←]
theorem moves_token : Moves token := looks_token.moves

@[grind ←]
theorem looks_ahead : Looks ahead := by
  rintro s _ _ ⟨⟩
  rfl

@[grind ←]
theorem moves_ahead : Moves ahead := looks_ahead.moves

@[grind ←]
theorem looks_fuel : Looks fuel := by
  rintro s _ _ ⟨⟩
  rfl

@[grind ←]
theorem moves_fuel : Moves fuel := looks_fuel.moves

@[grind ←]
theorem looks_atMark (m : String) : Looks (atMark m) := by
  rintro s _ _ ⟨⟩
  rfl

@[grind ←]
theorem moves_atMark (m : String) : Moves (atMark m) := (looks_atMark _).moves

@[grind ←]
theorem looks_atWord (w : String) : Looks (atWord w) := by
  rintro s _ _ ⟨⟩
  rfl

@[grind ←]
theorem moves_atWord (w : String) : Moves (atWord w) := (looks_atWord _).moves

@[grind ←]
theorem looks_sameLineAhead (p : Token → Bool) : Looks (sameLineAhead p) := by
  unfold sameLineAhead
  grind

@[grind ←]
theorem moves_sameLineAhead (p : Token → Bool) : Moves (sameLineAhead p) :=
  (looks_sameLineAhead p).moves

@[grind ←]
theorem looks_atModifier (w : String) (sameLine : Bool) (p : Token → Bool) :
    Looks (atModifier w sameLine p) := by
  unfold atModifier
  grind

@[grind ←]
theorem moves_atModifier (w : String) (sameLine : Bool) (p : Token → Bool) :
    Moves (atModifier w sameLine p) := (looks_atModifier w sameLine p).moves

@[grind ←]
theorem looks_atAsyncFunction : Looks atAsyncFunction := by
  unfold atAsyncFunction
  grind

@[grind ←]
theorem moves_atAsyncFunction : Moves atAsyncFunction := looks_atAsyncFunction.moves

@[grind ←]
theorem looks_atAsyncArrow : Looks atAsyncArrow := by
  unfold atAsyncArrow
  grind

@[grind ←]
theorem moves_atAsyncArrow : Moves atAsyncArrow := looks_atAsyncArrow.moves

@[grind ←]
theorem moves_advance : Moves advance := fun _ _ _ run => ⟨_, .step (eq_of_advance run)⟩

/-- Noting an error changes nothing else. -/
theorem eq_of_flawIf {p : Bool} {s t : Stream} {a : Unit} (run : flawIf p s = some (a, t)) :
    t.token = s.token ∧ t.rest = s.rest ∧ t.unset = s.unset := by
  cases p with
  | false =>
    cases run
    exact ⟨rfl, rfl, rfl⟩
  | true =>
    cases run
    exact ⟨rfl, rfl, rfl⟩

theorem passed_of_flawIf {p : Bool} {s t : Stream} {a : Unit} (run : flawIf p s = some (a, t)) :
    Passed s [] 0 t := by
  obtain ⟨token, rest, unset⟩ := eq_of_flawIf run
  exact .stay token rest (Nat.le_of_eq unset.symm)

@[grind ←]
theorem moves_flawIf (p : Bool) : Moves (flawIf p) := fun _ _ _ run => ⟨[], passed_of_flawIf run⟩

@[grind ←]
theorem moves_flaw : Moves flaw := moves_flawIf true

@[grind ←]
theorem moves_skipMark (m : String) : Moves (skipMark m) := by
  unfold skipMark
  grind

@[grind ←]
theorem moves_expectMark (m : String) : Moves (expectMark m) := by
  unfold expectMark
  grind

theorem passed_of_takeWord {s t : Stream} {a : Unit} (run : takeWord s = some (a, t)) :
    Passed s [.plain s.token] 0 t := by
  unfold takeWord at run
  rw [bind_run (token_run s)] at run
  cases word : s.token with
  | word w escaped =>
    rw [word] at run
    obtain ⟨_, noted, flawed, step⟩ := exists_of_bind run
    have stepped := Passed.step (eq_of_advance step)
    rw [(eq_of_flawIf flawed).1, word] at stepped
    exact (passed_of_flawIf flawed).trans stepped
  | _ =>
    rw [word] at run
    cases run

@[grind ←]
theorem moves_takeWord : Moves takeWord := fun _ _ _ run => ⟨_, passed_of_takeWord run⟩

@[grind ←]
theorem moves_skipWord (w : String) : Moves (skipWord w) := by
  unfold skipWord
  grind

@[grind ←]
theorem moves_expectWord (w : String) : Moves (expectWord w) := by
  unfold expectWord
  grind

@[grind ←]
theorem moves_semicolon : Moves semicolon := by
  unfold semicolon
  grind

@[grind ←]
theorem moves_bindingName (c : Context) : Moves (bindingName c) := by
  unfold bindingName
  grind

theorem Moves.separated {x : Parser α} (each : Moves x) (close : String) (fuel : Nat) :
    Moves (separated close x fuel) := by
  induction fuel with
  | zero => exact moves_failure
  | succ fuel ih =>
    rw [Parser.separated]
    grind

@[grind ←]
theorem Moves.list {x : Parser α} (each : Moves x) (close : String) : Moves (list close x) := by
  unfold Parser.list
  exact moves_fuel.bind fun fuel => each.separated close fuel

end Parser

/-- **The nested parsers skip nothing.** -/
structure Nested.Moves (r : Nested) : Prop where
  assignment : ∀ c, Parser.Moves (r.assignment c)
  binary : ∀ bound c, Parser.Moves (r.binary bound c)
  unary : ∀ c, Parser.Moves (r.unary c)
  operand : ∀ c, Parser.Moves (r.operand c)
  member : ∀ c, Parser.Moves (r.member c)
  binding : ∀ c, Parser.Moves (r.binding c)
  statement : ∀ place c, Parser.Moves (r.statement place c)

attribute [grind ←] Nested.Moves.assignment Nested.Moves.binary Nested.Moves.unary
  Nested.Moves.operand Nested.Moves.member Nested.Moves.binding Nested.Moves.statement

namespace Parser

variable {r : Nested} (moves : r.Moves) (c : Context)
include moves

theorem moves_expressionRest (fuel : Nat) : Moves (expressionRest r c fuel) := by
  induction fuel with
  | zero => exact moves_failure
  | succ fuel ih =>
    rw [expressionRest]
    grind

@[grind ←]
theorem moves_expression : Moves (expression r c) := by
  unfold expression
  grind [moves_expressionRest]

/-! ## Patterns and functions -/

@[grind ←]
theorem moves_key : Moves (key r c) := by
  unfold key
  grind

@[grind ←]
theorem moves_initialiser : Moves (initialiser r c) := by
  unfold initialiser
  grind

omit moves in
@[grind ←]
theorem moves_restLast (comma : Bool) (parts : List Bool) : Moves (restLast comma parts) := by
  induction parts with
  | nil => exact moves_pure ()
  | cons takesRest parts ih =>
    cases parts with
    | nil => exact moves_flawIf _
    | cons second parts =>
      unfold restLast
      grind

@[grind ←]
theorem moves_bindingPart : Moves (bindingPart r c) := by
  unfold bindingPart
  grind

@[grind ←]
theorem moves_bindingItem : Moves (bindingItem r c) := by
  unfold bindingItem
  grind

@[grind ←]
theorem moves_bindingEntry : Moves (bindingEntry r c) := by
  unfold bindingEntry
  refine (moves_skipMark _).bind fun dots => ?_
  split
  · grind
  · refine moves_token.bind fun first => (moves_key moves c).bind fun _ => ?_
    grind

theorem moves_binding : Moves (binding r c) := by
  unfold binding
  grind

@[grind ←]
theorem moves_parameters : Moves (parameters r c) := by
  unfold parameters
  grind

theorem moves_statements (fuel : Nat) : Moves (statements r c fuel) := by
  induction fuel with
  | zero => exact moves_failure
  | succ fuel ih =>
    rw [statements]
    grind

@[grind ←]
theorem moves_block : Moves (block r c) := by
  unfold block
  grind [moves_statements]

@[grind ←]
theorem moves_functionTail (isAsync isGenerator : Bool) :
    Moves (functionTail r c isAsync isGenerator) := by
  unfold functionTail
  grind

@[grind ←]
theorem moves_function (isAsync named : Bool) : Moves (function r c isAsync named) := by
  unfold function
  grind

@[grind ←]
theorem moves_accessorTail (writes : Bool) : Moves (accessorTail r c writes) := by
  unfold accessorTail
  grind

/-! ## Classes -/

@[grind ←]
theorem moves_decorators (fuel : Nat) : Moves (decorators r c fuel) := by
  induction fuel with
  | zero => exact moves_failure
  | succ fuel ih =>
    rw [decorators]
    grind

@[grind ←]
theorem moves_elementName : Moves (elementName r c) := by
  unfold elementName
  grind

omit moves in
@[grind ←]
theorem moves_skipModifier (w : String) (sameLine : Bool) (p : Token → Bool) :
    Moves (skipModifier w sameLine p) := by
  unfold skipModifier
  grind

@[grind ←]
theorem moves_fieldValue : Moves (fieldValue r c) := by
  unfold fieldValue
  grind

theorem moves_element : Moves (element r c) := by
  unfold element
  refine moves_fuel.bind fun fuel => (moves_decorators moves c fuel).bind fun _ => ?_
  refine (moves_skipModifier _ _ _).bind fun isStatic => (moves_atMark _).bind fun brace => ?_
  split
  · grind
  · refine (moves_skipModifier _ _ _).bind fun reads => ?_
    split
    · grind
    · refine (moves_skipModifier _ _ _).bind fun writes => ?_
      split
      · grind
      · refine (moves_skipModifier _ _ _).bind fun isAsync => ?_
        refine (moves_skipMark _).bind fun isGenerator => ?_
        refine (moves_skipModifier _ _ _).bind fun isField => ?_
        refine (moves_elementName moves c).bind fun name => ?_
        grind

theorem moves_elements (fuel : Nat) : Moves (elements r c fuel) := by
  induction fuel with
  | zero => exact moves_failure
  | succ fuel ih =>
    rw [elements]
    grind [moves_element]

@[grind ←]
theorem moves_classTail (named : Bool) : Moves (classTail r c named) := by
  have body : Moves (do
      if ← skipWord "extends" then
        let _ ← r.operand c
      expectMark "\x7b"
      elements r c (← fuel)) := by
    grind [moves_elements]
  unfold classTail
  refine (moves_expectWord _).bind fun _ => ?_
  grind

/-! ## Arrows -/

@[grind ←]
theorem moves_arrowHead : Moves (arrowHead r c) := by
  unfold arrowHead
  grind

end Parser

end MiniTemplate.Script
