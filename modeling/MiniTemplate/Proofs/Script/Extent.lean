import MiniTemplate.Script.Parse

/-!
# The extent of optional chains

An optional chain goes on through all member accesses and calls that follow its first optional
link, up to the end of the operand or to a closing parenthesis. `Phrase.Marked` says of a phrase
that its chains are marked that far and no further, and `marked_of_phrase?` that this holds of
whatever is read. There is one lemma for each rule of the grammar: what the rule yields is marked
if what the nested parsers yield is.
-/

namespace MiniTemplate.Script

/-! ## The phrases right below a phrase -/

section
variable {α : Type}

/-- The phrases that an item of an array holds. -/
def Item.phrases : Item α → List α
  | .hole => []
  | .plain p | .spread p => [p]

/-- The phrases that an argument holds. -/
def Argument.phrases : Argument α → List α
  | .plain p | .spread p => [p]

/-- The phrases that a key holds. -/
def Key.phrases : Key α → List α
  | .computed p => [p]
  | _ => []

/-- The phrases that a member of an object holds. -/
def Entry.phrases : Entry α → List α
  | .pair key value => key.phrases ++ [value]
  | .method key | .accessor key => key.phrases
  | .spread p => [p]
  | .shorthand _ | .initialised _ => []

end

namespace Phrase

/-- The phrases right below a phrase. -/
def parts : Phrase → List Phrase
  | .name _ | .literal _ | .foreign _ => []
  | .template _ parts | .sequence parts => parts
  | .array items _ => items.flatMap Item.phrases
  | .object entries _ => entries.flatMap Entry.phrases
  | .member base _ _ => [base]
  | .index base key _ => [base, key]
  | .call callee arguments _ => callee :: arguments.flatMap Argument.phrases
  | .chain body | .parens body => [body]
  | .unary _ argument => [argument]
  | .binary _ left right | .logical _ left right => [left, right]
  | .conditional test consequent alternate => [test, consequent, alternate]

/-- Whether a phrase is the whole of an optional chain. -/
def isChain : Phrase → Bool
  | .chain _ => true
  | _ => false

/-- **The chains of a phrase are marked as far as they extend.** The flag says whether an optional
link goes before the end of the phrase that no chain holds yet; what is put right after it then
belongs to the same chain. -/
inductive Marked : Phrase → Bool → Prop where
  | plain {p : Phrase} (link : p.isLink = false) (chain : p.isChain = false)
      (below : ∀ q ∈ p.parts, Marked q false) : Marked p false
  | foreign (construct : Construct) (pending : Bool) : Marked (.foreign construct) pending
  | chain {body : Phrase} (inside : Marked body true) : Marked (.chain body) false
  | member {base : Phrase} {pending : Bool} (name : String) (optional : Bool)
      (before : Marked base pending) (apart : base.isChain = false) :
      Marked (.member base name optional) (pending || optional)
  | index {base key : Phrase} {pending : Bool} (optional : Bool) (before : Marked base pending)
      (apart : base.isChain = false) (inside : Marked key false) :
      Marked (.index base key optional) (pending || optional)
  | call {callee : Phrase} {arguments : List (Argument Phrase)} {pending : Bool} (optional : Bool)
      (before : Marked callee pending) (apart : callee.isChain = false)
      (inside : ∀ a ∈ arguments, ∀ q ∈ a.phrases, Marked q false) :
      Marked (.call callee arguments optional) (pending || optional)

/-- What a member access or a call may be put right after. -/
structure Extends (p : Phrase) (pending : Bool) : Prop where
  marked : p.Marked pending
  apart : p.isChain = false

theorem Extends.plain {p : Phrase} (link : p.isLink = false) (chain : p.isChain = false)
    (below : ∀ q ∈ p.parts, q.Marked false) : p.Extends false :=
  ⟨.plain link chain below, chain⟩

theorem Extends.foreign (construct : Construct) (pending : Bool) :
    (Phrase.foreign construct).Extends pending :=
  ⟨.foreign construct pending, rfl⟩

end Phrase

/-! ## What a parser yields -/

namespace Parser

variable {α β : Type}

/-- Whatever a parser yields has a property. -/
def Yields (x : Parser α) (P : α → Prop) : Prop := ∀ s a t, x s = some (a, t) → P a

namespace Yields

theorem pure {P : α → Prop} {a : α} (holds : P a) : Yields (pure a) P := by
  rintro s _ t ⟨⟩
  exact holds

theorem failure {P : α → Prop} : Yields failure P := by
  rintro s a t ⟨⟩

theorem bind {x : Parser α} {f : α → Parser β} {P : α → Prop} {Q : β → Prop} (first : Yields x P)
    (next : ∀ a, P a → Yields (f a) Q) : Yields (x >>= f) Q := by
  intro s b t done
  obtain ⟨⟨a, u⟩, before, after⟩ := Option.bind_eq_some_iff.1 done
  exact next a (first s a u before) u b t after

/-- A step whose result does not matter. -/
theorem after {x : Parser α} {f : α → Parser β} {Q : β → Prop} (next : ∀ a, Yields (f a) Q) :
    Yields (x >>= f) Q :=
  bind (P := fun _ => True) (fun _ _ _ _ => trivial) fun a _ => next a

theorem failure_bind {f : α → Parser β} {Q : β → Prop} : Yields (Alternative.failure >>= f) Q :=
  bind (P := fun _ => False) failure fun _ absurd => absurd.elim

theorem separated {x : Parser α} {P : α → Prop} (each : Yields x P) (close : String) (fuel : Nat) :
    Yields (separated close x fuel) fun found => ∀ a ∈ found.1, P a := by
  induction fuel with
  | zero => exact .failure
  | succ fuel ih =>
    rw [Parser.separated]
    refine .after fun closed => ?_
    split
    · exact .pure (by simp)
    · refine .bind each fun a first => .after fun last => ?_
      split
      · exact .pure (by simpa using first)
      · refine .after fun _ => .after fun comma => ?_
        split
        · exact .pure (by simpa using first)
        · refine .bind ih fun found rest => ?_
          exact .pure (by simpa using ⟨first, rest⟩)

theorem list {x : Parser α} {P : α → Prop} (each : Yields x P) (close : String) :
    Yields (list close x) fun found => ∀ a ∈ found.1, P a :=
  .after fun fuel => each.separated close fuel

end Yields

end Parser

open Phrase (Marked Extends)

/-- The nested parsers mark the chains of what they yield. -/
structure Nested.Marks (r : Nested) : Prop where
  assignment : ∀ c, Parser.Yields (r.assignment c) (Marked · false)
  binary : ∀ bound c, Parser.Yields (r.binary bound c) (Marked · false)
  unary : ∀ c, Parser.Yields (r.unary c) (Marked · false)

namespace Parser

variable {r : Nested} (marks : r.Marks) (c : Context)
include marks

theorem yields_expressionRest (fuel : Nat) :
    Yields (expressionRest r c fuel) fun ps => ∀ p ∈ ps, Marked p false := by
  induction fuel with
  | zero => exact .failure
  | succ fuel ih =>
    rw [expressionRest]
    refine .after fun comma => ?_
    split
    · refine .bind (marks.assignment c) fun p first => .bind ih fun ps rest => ?_
      exact .pure (by simpa using ⟨first, rest⟩)
    · exact .pure (by simp)

theorem yields_expression : Yields (expression r c) (Marked · false) := by
  unfold expression
  refine .bind (marks.assignment _) fun p first => .after fun fuel => ?_
  refine .bind (yields_expressionRest marks _ fuel) fun ps rest => ?_
  split
  · exact .pure first
  · exact .pure (.plain rfl rfl (by simpa [Phrase.parts] using ⟨first, rest⟩))

/-! ## Templates, arrays and objects -/

theorem yields_templateParts (tagged : Bool) (fuel : Nat) :
    Yields (templateParts r c tagged fuel) fun parts => ∀ p ∈ parts.2, Marked p false := by
  induction fuel with
  | zero => exact .failure
  | succ fuel ih =>
    rw [templateParts]
    refine .after fun t => ?_
    split
    · refine .after fun _ => .after fun _ => ?_
      split
      · exact .pure (by simp)
      · refine .bind (yields_expression marks _) fun p first => .after fun _ => ?_
        refine .bind ih fun parts rest => ?_
        exact .pure (by simpa using ⟨first, rest⟩)
    · exact .failure

theorem yields_template (tagged : Bool) : Yields (template r c tagged) (Extends · false) := by
  unfold template
  refine .after fun fuel => .bind (yields_templateParts marks c tagged fuel) fun parts each => ?_
  exact .pure (.plain rfl rfl each)

theorem yields_item : Yields (item r c) fun i => ∀ p ∈ i.phrases, Marked p false := by
  unfold item
  refine .after fun hole => ?_
  split
  · exact .pure (by simp [Item.phrases])
  · refine .after fun dots => ?_
    split
    · exact .bind (marks.assignment c) fun p marked => .pure (by simpa [Item.phrases] using marked)
    · exact .bind (marks.assignment c) fun p marked => .pure (by simpa [Item.phrases] using marked)

theorem yields_array : Yields (array r c) (Extends · false) := by
  unfold array
  refine .after fun _ => .bind ((yields_item marks _).list _) fun found each => ?_
  refine .pure (.plain rfl rfl ?_)
  intro p member
  obtain ⟨i, listed, inside⟩ := List.mem_flatMap.1 member
  exact each i listed p inside

theorem yields_argument : Yields (argument r c) fun a => ∀ p ∈ a.phrases, Marked p false := by
  unfold argument
  refine .after fun dots => ?_
  split
  · exact .bind (marks.assignment c) fun p marked => .pure (by simpa [Argument.phrases] using marked)
  · exact .bind (marks.assignment c) fun p marked => .pure (by simpa [Argument.phrases] using marked)

theorem yields_arguments :
    Yields (arguments r c) fun as => ∀ a ∈ as, ∀ p ∈ a.phrases, Marked p false := by
  unfold arguments
  exact .after fun _ => .bind ((yields_argument marks _).list _) fun found each => .pure each

theorem yields_key : Yields (key r c) fun k => ∀ p ∈ k.phrases, Marked p false := by
  unfold key
  refine .after fun t => ?_
  split
  · exact .after fun _ => .pure (by simp [Key.phrases])
  · exact .after fun _ => .pure (by simp [Key.phrases])
  · exact .after fun _ => .pure (by simp [Key.phrases])
  · exact .after fun _ => .pure (by simp [Key.phrases])
  · refine .after fun _ => .bind (marks.assignment _) fun p marked => .after fun _ => ?_
    exact .pure (by simpa [Key.phrases] using marked)
  · exact .failure

theorem yields_plainEntry (isAsync : Bool) :
    Yields (plainEntry r c isAsync) fun e => ∀ p ∈ e.phrases, Marked p false := by
  unfold plainEntry
  refine .after fun isGenerator => .after fun first => ?_
  refine .bind (yields_key marks c) fun k inKey => .after fun parens => ?_
  split
  · exact .after fun _ => .pure (by simpa [Entry.phrases] using inKey)
  · refine .after fun colon => ?_
    split
    · refine .bind (marks.assignment c) fun p marked => .pure ?_
      intro q member
      rcases List.mem_append.1 member with member | member
      · exact inKey q member
      · obtain rfl := List.mem_singleton.1 member
        exact marked
    · split
      · dsimp only
        split
        · exact .failure_bind
        · refine .after fun _ => .after fun initialised => ?_
          split
          · exact .after fun _ => .after fun _ => .pure (by simp [Entry.phrases])
          · exact .pure (by simp [Entry.phrases])
      · exact .failure

theorem yields_entry : Yields (entry r c) fun e => ∀ p ∈ e.phrases, Marked p false := by
  unfold entry
  refine .after fun dots => ?_
  split
  · exact .bind (marks.assignment c) fun p marked => .pure (by simpa [Entry.phrases] using marked)
  · refine .after fun isAsync => ?_
    split
    · exact yields_plainEntry marks c true
    · refine .after fun isGetter => ?_
      split
      · refine .bind (yields_key marks c) fun k inKey => .after fun _ => ?_
        exact .pure (by simpa [Entry.phrases] using inKey)
      · refine .after fun isSetter => ?_
        split
        · refine .bind (yields_key marks c) fun k inKey => .after fun _ => ?_
          exact .pure (by simpa [Entry.phrases] using inKey)
        · exact yields_plainEntry marks c false

theorem yields_object : Yields (object r c) (Extends · false) := by
  unfold object
  refine .after fun _ => .bind ((yields_entry marks _).list _) fun found each => ?_
  refine .pure (.plain rfl rfl ?_)
  intro p member
  obtain ⟨e, listed, inside⟩ := List.mem_flatMap.1 member
  exact each e listed p inside

/-! ## Operands -/

theorem yields_parens : Yields (parens r c) (Extends · false) := by
  unfold parens
  refine .after fun _ => .bind (yields_expression marks _) fun p marked => .after fun _ => ?_
  exact .pure (.plain rfl rfl (by simpa [Phrase.parts] using marked))

omit marks in
theorem yields_regularExpression : Yields regularExpression (Extends · false) := by
  unfold regularExpression
  refine .after fun s => ?_
  dsimp only
  split
  · exact .after fun _ => .after fun _ => .pure (Extends.foreign _ _)
  · exact .failure_bind

omit marks in
theorem yields_wordOperand (w : String) : Yields (wordOperand r c w) (Extends · false) := by
  have literal (value : Literal) : Extends (.literal value) false :=
    .plain rfl rfl (by simp [Phrase.parts])
  unfold wordOperand
  split
  · exact .after fun _ => .pure (literal _)
  · exact .after fun _ => .pure (literal _)
  · exact .after fun _ => .pure (literal _)
  · exact .after fun _ => .pure (Extends.foreign _ _)
  · exact .after fun _ => .pure (Extends.foreign _ _)
  · exact .after fun _ => .pure (Extends.foreign _ _)
  · refine .after fun isAsync => ?_
    split
    · exact .after fun _ => .after fun _ => .pure (Extends.foreign _ _)
    · exact .after fun name => .pure (.plain rfl rfl (by simp [Phrase.parts]))

theorem yields_simpleOperand : Yields (simpleOperand r c) (Extends · false) := by
  have literal (value : Literal) : Extends (.literal value) false :=
    .plain rfl rfl (by simp [Phrase.parts])
  unfold simpleOperand
  refine .after fun t => ?_
  split
  · exact yields_wordOperand c _
  · exact .after fun _ => .pure (literal _)
  · exact .after fun _ => .pure (.foreign _ _)
  · exact .after fun _ => .pure (literal _)
  · exact yields_template marks c false
  · split
    · exact yields_parens marks c
    · exact yields_array marks c
    · exact yields_object marks c
    · exact yields_regularExpression
    · exact yields_regularExpression
    · exact .after fun _ => .after fun _ => .after fun _ => .pure (.foreign _ _)
    · exact .failure
  · exact .failure

omit marks in
theorem yields_importOperand : Yields (importOperand r c) (Extends · false) := by
  unfold importOperand
  refine .after fun _ => .after fun dot => ?_
  dsimp only
  split
  · refine .after fun isMeta => ?_
    split
    · exact .pure (.foreign _ _)
    · refine .after fun source => .after fun defer => ?_
      split
      · exact .failure_bind
      · exact .after fun _ => .after fun _ => .pure (.foreign _ _)
  · exact .after fun _ => .pure (.foreign _ _)

omit marks in
theorem yields_superOperand : Yields superOperand (Extends · false) := by
  unfold superOperand
  exact .after fun _ => .after fun _ => .after fun _ => .after fun _ => .after fun _ => .pure (.foreign _ _)

omit marks in
theorem yields_construction : Yields (construction r c) (Extends · false) := by
  unfold construction
  refine .after fun _ => .after fun dot => ?_
  split
  · exact .after fun _ => .pure (.foreign _ _)
  · refine .after fun found => .after fun _ => .after fun _ => ?_
    have rest : Yields (do
        if ← atMark "(" then
          let _ ← arguments r c
        return .foreign .construction) (Extends · false) := by
      refine .after fun parens => ?_
      dsimp only
      split
      · exact .after fun _ => .pure (.foreign _ _)
      · exact .pure (.foreign _ _)
    dsimp only
    split
    · exact .after fun _ => rest
    · exact rest

theorem yields_base : Yields (base r c) (Extends · false) := by
  unfold base
  refine .after fun t => ?_
  split
  · exact yields_construction c
  · exact yields_importOperand c
  · exact yields_superOperand
  · exact yields_simpleOperand marks c

/-! ## Members and calls -/

omit marks in
theorem yields_memberName {p : Phrase} {pending : Bool} (before : p.Extends pending) (optional : Bool) :
    Yields (memberName p optional) (Extends · (pending || optional)) := by
  unfold memberName
  refine .after fun t => ?_
  split
  · exact .after fun _ => .pure ⟨.member _ optional before.marked before.apart, rfl⟩
  · exact .after fun _ => .pure (.foreign _ _)
  · exact .failure

theorem yields_memberIndex {p : Phrase} {pending : Bool} (before : p.Extends pending) (optional : Bool) :
    Yields (memberIndex r c p optional) (Extends · (pending || optional)) := by
  unfold memberIndex
  refine .after fun _ => .bind (yields_expression marks _) fun i inside => .after fun _ => ?_
  exact .pure ⟨.index optional before.marked before.apart inside, rfl⟩

theorem yields_memberRest (fuel : Nat) {p : Phrase} {pending : Bool} (before : p.Extends pending) :
    Yields (memberRest r c fuel p pending) fun found => found.1.Extends found.2 := by
  induction fuel generalizing p pending with
  | zero => exact .failure
  | succ fuel ih =>
    rw [memberRest]
    refine .after fun t => ?_
    split
    · exact .after fun _ => .after fun _ => ih (.foreign _ _)
    · refine .after fun _ => .bind (yields_memberName before false) fun q next => ?_
      exact ih (by simpa using next)
    · split
      · exact .pure before
      · refine .bind (yields_memberIndex marks c before false) fun q next => ?_
        exact ih (by simpa using next)
    · refine .after fun next => ?_
      split
      · split
        · exact .pure before
        · refine .after fun _ => .bind (yields_memberIndex marks c before true) fun q next => ?_
          exact ih (by simpa using next)
      · refine .after fun _ => .bind (yields_memberName before true) fun q next => ?_
        exact ih (by simpa using next)
      · refine .after fun _ => .bind (yields_memberName before true) fun q next => ?_
        exact ih (by simpa using next)
      · exact .pure before
    · exact .pure before

theorem yields_callRest (fuel : Nat) {p : Phrase} {pending : Bool} (before : p.Extends pending) :
    Yields (callRest r c fuel p pending) fun found => found.1.Extends found.2 := by
  induction fuel generalizing p pending with
  | zero => exact .failure
  | succ fuel ih =>
    rw [callRest]
    refine .after fun steps => .bind (yields_memberRest marks c steps before) fun found links => ?_
    have called (optional : Bool) {as : List (Argument Phrase)}
        (inside : ∀ a ∈ as, ∀ q ∈ a.phrases, Marked q false) :
        (Phrase.call found.1 as optional).Extends (found.2 || optional) :=
      ⟨.call optional links.marked links.apart inside, rfl⟩
    refine .after fun isOptional => ?_
    split
    · refine .after fun parens => ?_
      split
      · refine .bind (yields_arguments marks c) fun as inside => ?_
        exact ih (by simpa using called true inside)
      · exact .failure
    · refine .after fun parens => ?_
      split
      · refine .bind (yields_arguments marks c) fun as inside => ?_
        exact ih (by simpa using called false inside)
      · exact .pure links

/-- **An operand's chain is marked to the operand's end.** -/
theorem yields_operand : Yields (operand r c) (Marked · false) := by
  unfold operand
  refine .bind (yields_base marks c) fun p before => .after fun fuel => ?_
  refine .bind (yields_callRest marks c fuel before) fun found links => .pure ?_
  obtain ⟨q, pending⟩ := found
  cases pending with
  | false => exact links.marked
  | true => exact .chain links.marked

/-! ## Operators -/

theorem yields_update : Yields (update r c) (Marked · false) := by
  unfold update
  refine .after fun increment => .after fun decrement => ?_
  split
  · exact .after fun _ => .after fun _ => .after fun _ => .pure (.foreign _ _)
  · refine .bind (yields_operand marks c) fun p marked => .after fun _ => .after fun _ => .after fun _ => ?_
    split
    · exact .after fun _ => .after fun _ => .pure (.foreign _ _)
    · exact .pure marked

theorem yields_unary : Yields (unary r c) (Marked · false) := by
  have operation (m : String) : Yields (return .unary m (← r.unary c)) (Marked · false) :=
    .bind (marks.unary c) fun p marked => .pure (.plain rfl rfl (by simpa [Phrase.parts] using marked))
  unfold unary
  refine .after fun t => ?_
  split
  · split
    · exact .after fun _ => operation _
    · exact yields_update marks c
  · split
    · exact .after fun _ => operation _
    · refine .after fun awaits => ?_
      split
      · exact .after fun _ => .after fun _ => .after fun _ => .pure (.foreign _ _)
      · exact yields_update marks c
  · exact yields_update marks c

omit marks in
theorem yields_hiddenTest (bound : Nat) : Yields (hiddenTest r bound c) (Marked · false) := by
  unfold hiddenTest
  refine .after fun _ => .after fun _ => ?_
  split
  · exact .after fun _ => .pure (.foreign _ _)
  · exact .failure

omit marks in
theorem marked_joined {left right : Phrase} (operator : String) (first : left.Marked false)
    (second : right.Marked false) : (Phrase.joined operator left right).Marked false := by
  unfold Phrase.joined
  split
  · exact .plain rfl rfl (by simpa [Phrase.parts] using ⟨first, second⟩)
  · exact .plain rfl rfl (by simpa [Phrase.parts] using ⟨first, second⟩)

theorem yields_binaryRest (bound : Nat) (leftParens : Bool) (fuel : Nat) {left : Phrase}
    (before : left.Marked false) :
    Yields (binaryRest r bound c leftParens fuel left) (Marked · false) := by
  induction fuel generalizing left with
  | zero => exact .failure
  | succ fuel ih =>
    rw [binaryRest]
    have step (operator : String) (precedence : Nat) : Yields (do
        let rightParens ← atMark "("
        let right ← r.binary precedence c
        flawIf (operator == "??" && Phrase.mixes leftParens rightParens left right)
        flawIf (operator == "**" && left.isUnary)
        binaryRest r bound c leftParens fuel (.joined operator left right)) (Marked · false) := by
      refine .after fun _ => .bind (marks.binary precedence c) fun right second => ?_
      exact .after fun _ => .after fun _ => ih (marked_joined operator before second)
    refine .after fun annotated => ?_
    dsimp only
    split
    · exact .failure_bind
    · refine .after fun t => ?_
      split
      · exact .pure before
      · split
        · exact .pure before
        · split
          · exact .after fun _ => step _ _
          · exact .after fun _ => step _ _

theorem yields_binary (bound : Nat) : Yields (binary r bound c) (Marked · false) := by
  unfold binary
  refine .after fun leftParens => .after fun t => ?_
  dsimp only
  split
  · exact .bind (yields_hiddenTest c bound) fun left first => .after fun fuel =>
      yields_binaryRest marks c bound leftParens fuel first
  · exact .bind (yields_unary marks c) fun left first => .after fun fuel =>
      yields_binaryRest marks c bound leftParens fuel first

/-! ## Conditionals, assignments and arrow functions -/

omit marks in
theorem yields_suspension : Yields (suspension r c) (Marked · false) := by
  unfold suspension
  refine .after fun _ => .after fun _ => .after fun s => ?_
  dsimp only
  split
  · refine .after fun delegates => .after fun t => ?_
    split
    · exact .after fun _ => .pure (.foreign _ _)
    · exact .pure (.foreign _ _)
  · exact .pure (.foreign _ _)

omit marks in
theorem yields_arrowTail (isAsync : Bool) : Yields (arrowTail r c isAsync) (Marked · false) := by
  unfold arrowTail
  refine .after fun _ => .after fun _ => .after fun _ => .after fun body => ?_
  dsimp only
  split
  · exact .after fun _ => .pure (.foreign _ _)
  · exact .after fun _ => .pure (.foreign _ _)

theorem yields_assignmentRest {left : Phrase} (before : left.Marked false) :
    Yields (assignmentRest r c left) (Marked · false) := by
  unfold assignmentRest
  refine .after fun t => ?_
  split
  · refine .after fun _ => .bind (marks.assignment _) fun p first => .after fun _ => ?_
    refine .bind (marks.assignment c) fun q second => ?_
    exact .pure (.plain rfl rfl (by simpa [Phrase.parts] using ⟨before, first, second⟩))
  · split
    · exact .after fun _ => .after fun _ => .after fun _ => .pure (.foreign _ _)
    · exact .pure before
  · exact .pure before

theorem yields_possibleArrow : Yields (possibleArrow r c) (Marked · false) := by
  unfold possibleArrow
  refine .after fun start => ?_
  split
  · exact .after fun isAsync => yields_arrowTail c isAsync
  · rename_i left s done
    have before := yields_binary marks c 0 start left s done
    split
    · split
      · exact .after fun _ => yields_arrowTail c _
      · exact .after fun _ => .pure before
    · exact .after fun _ => yields_assignmentRest marks c before

theorem yields_arrowOrOperands : Yields (arrowOrOperands r c) (Marked · false) := by
  unfold arrowOrOperands
  refine .after fun s => ?_
  split
  · refine .bind (yields_binary marks c 0) fun left before => ?_
    unfold operandsRest
    refine .after fun t => ?_
    split
    · exact yields_arrowTail c false
    · exact yields_assignmentRest marks c before
  · exact yields_possibleArrow marks c
  · exact .after fun isAsync => yields_arrowTail c isAsync

theorem yields_assignment : Yields (assignment r c) (Marked · false) := by
  unfold assignment
  refine .after fun suspends => ?_
  split
  · exact yields_suspension c
  · refine .after fun isArrow => ?_
    split
    · exact .after fun _ => .after fun _ => yields_arrowTail c true
    · exact yields_arrowOrOperands marks c

end Parser

/-! ## Whole expressions -/

/-- **The nested parsers mark chains**, at every depth. -/
theorem nested_marks (depth : Nat) : (nested depth).Marks := by
  induction depth with
  | zero => exact ⟨fun _ => .failure, fun _ _ => .failure, fun _ => .failure⟩
  | succ depth ih =>
    exact ⟨Parser.yields_assignment ih, fun bound c => Parser.yields_binary ih c bound,
      Parser.yields_unary ih⟩

/-- **The chains of what is read are marked as far as they extend.** -/
theorem marked_of_phrase? {text : List Char} {p : Phrase} (read : phrase? text = some p) :
    p.Marked false := by
  simp only [phrase?, Option.bind_eq_bind, Option.bind_eq_some_iff] at read
  obtain ⟨start, -, ⟨q, s⟩, done, sound⟩ := read
  have marked := Parser.yields_expression (nested_marks _) _ start q s done
  split at sound
  · cases sound
  · cases sound
    exact marked

end MiniTemplate.Script
