import MiniTemplate.Proofs.Script.Bodies

/-!
# Expressions are read as far as they go

An expression ends before a token that does not continue it: no operator, no comma, no question
mark, and nothing that links an operand to a member or to a call is left at hand. This is so
wherever the expression has a tree; after the body of a function an operator may stand.
`Parser.Ends` says what stands at hand after a parser, and there is one lemma for each rule that
may come last in an expression.
-/

namespace MiniTemplate.Script

/-- Whether a token links an operand to a member, to a call or to a template. -/
def Token.links : Token → Bool
  | .template .. => true
  | .mark m => [".", "?.", "[", "("].contains m
  | _ => false

/-- **Whether a token continues an expression**: it links an operand to more, is a binary operator,
or divides a conditional or a sequence. -/
def Token.continuesExpression (t : Token) : Bool :=
  t.links || (binaryOperator? {} t).isSome || t == .mark "?" || t == .mark ","

/-- What may stand after an expression without comma operator. -/
structure Settled (c : Context) (t : Token) : Prop where
  links : t.links = false
  operator : binaryOperator? c t = none
  conditional : t ≠ .mark "?"

theorem Settled.not_continues {t : Token} (settled : Settled {} t) (comma : t ≠ .mark ",") :
    t.continuesExpression = false := by
  simp [Token.continuesExpression, settled.links, settled.operator, settled.conditional, comma]

/-- Operands that bind tighter than nothing are followed by no operator at all. -/
theorem Stops.operator {c : Context} {t : Token} (stops : Stops 0 c t) :
    binaryOperator? c t = none := by
  cases found : binaryOperator? c t with
  | none => rfl
  | some entry =>
    obtain ⟨operator, precedence⟩ := entry
    obtain ⟨least, -⟩ :=
      precedence_facts (mem_of_binaryOperator? (Parser.binaryOperator?_anywhere c found))
    have ends := stops operator precedence found
    simp only [continues, Bool.or_eq_false_iff, decide_eq_false_iff_not] at ends
    omega

namespace Phrase

/-- A phrase has a tree. -/
def HasTree (p : Phrase) : Prop := ∃ e, p.lower = .ok e

theorem not_hasTree_foreign (construct : Construct) : ¬ (Phrase.foreign construct).HasTree := by
  rintro ⟨e, lower⟩
  rw [Phrase.lower] at lower
  cases lower

theorem HasTree.argument {operator : String} {p : Phrase}
    (tree : (Phrase.unary operator p).HasTree) : p.HasTree := by
  obtain ⟨e, lower⟩ := tree
  simp only [Phrase.lower, bind_ok_iff] at lower
  obtain ⟨a, lower, -⟩ := lower
  exact ⟨a, lower⟩

theorem HasTree.right {operator : String} {p q : Phrase} (tree : (joined operator p q).HasTree) :
    q.HasTree := by
  obtain ⟨e, lower⟩ := tree
  unfold joined at lower
  split at lower
  · simp only [Phrase.lower, bind_ok_iff] at lower
    obtain ⟨_, -, right, second, -⟩ := lower
    exact ⟨right, second⟩
  · simp only [Phrase.lower, bind_ok_iff] at lower
    obtain ⟨_, -, right, second, -⟩ := lower
    exact ⟨right, second⟩

theorem HasTree.alternate {p q o : Phrase} (tree : (Phrase.conditional p q o).HasTree) :
    o.HasTree := by
  obtain ⟨e, lower⟩ := tree
  simp only [Phrase.lower, bind_ok_iff] at lower
  obtain ⟨_, -, _, -, a, lower, -⟩ := lower
  exact ⟨a, lower⟩

theorem hasTree_of_lowerAll {ps : List Phrase} {es : List Expr} (lower : lowerAll ps = .ok es) :
    ∀ p ∈ ps, p.HasTree := by
  induction ps generalizing es with
  | nil => simp
  | cons p ps ih =>
    simp only [lowerAll, bind_ok_iff] at lower
    obtain ⟨e, first, es, rest, -⟩ := lower
    exact List.forall_mem_cons.2 ⟨⟨e, first⟩, ih rest⟩

theorem HasTree.parts {ps : List Phrase} (tree : (Phrase.sequence ps).HasTree) :
    ∀ p ∈ ps, p.HasTree := by
  obtain ⟨e, lower⟩ := tree
  simp only [Phrase.lower, bind_ok_iff] at lower
  obtain ⟨es, lower, -⟩ := lower
  exact hasTree_of_lowerAll lower

end Phrase

namespace Parser

variable {α β : Type}

/-- **What stands at hand after a parser** that starts at `u`. -/
def Ends (u : Stream) (x : Parser α) (Q : α → Token → Prop) : Prop :=
  ∀ a t, x u = some (a, t) → Q a t.token

/-- After a phrase that has a tree. -/
abbrev EndsTree (u : Stream) (x : Parser Phrase) (P : Token → Prop) : Prop :=
  Ends u x fun p t => p.HasTree → P t

theorem Foreign.ends {x : Parser Phrase} (foreign : Foreign x) (u : Stream) (P : Token → Prop) :
    EndsTree u x P := by
  intro p t run tree
  obtain ⟨-, construct, rfl⟩ := foreign u p t run
  exact (Phrase.not_hasTree_foreign construct tree).elim

namespace Ends

variable {u : Stream} {x : Parser α} {f : α → Parser β} {P : α → Token → Prop}
  {Q : β → Token → Prop}

theorem pure {a : α} (holds : P a u.token) : Ends u (pure a) P := by
  rintro _ _ ⟨⟩
  exact holds

theorem failure : Ends u failure P := by
  rintro _ _ ⟨⟩

theorem failure_bind : Ends u (Alternative.failure >>= f) Q := by
  rintro _ _ ⟨⟩

theorem bind (next : ∀ a v, x u = some (a, v) → Ends v (f a) Q) : Ends u (x >>= f) Q := by
  intro b t done
  obtain ⟨a, v, before, after⟩ := exists_of_bind done
  exact next a v before b t after

theorem look {a : α} (seen : x u = some (a, u)) (next : Ends u (f a) Q) : Ends u (x >>= f) Q := by
  intro b t done
  rw [bind_run seen] at done
  exact next b t done

theorem looks (seen : Looks x) (next : ∀ a, Ends u (f a) Q) : Ends u (x >>= f) Q := by
  refine .bind fun a v before => ?_
  rw [seen u a v before]
  exact next a

theorem flawIf {f : Unit → Parser β} {p : Bool} (next : ∀ v, v.token = u.token → Ends v (f ()) Q) :
    Ends u (Parser.flawIf p >>= f) Q :=
  .bind fun _ v before => next v (eq_of_flawIf before).1

theorem skipMark {f : Bool → Parser β} {m : String} (hit : ∀ v, Ends v (f true) Q)
    (miss : u.token ≠ .mark m → Ends u (f false) Q) : Ends u (Parser.skipMark m >>= f) Q := by
  by_cases token : u.token = .mark m
  · refine .bind fun found v before => ?_
    unfold Parser.skipMark at before
    rw [bind_run (atMark_run m u), token, beq_self_eq_true, if_pos rfl] at before
    obtain ⟨_, w, -, ⟨⟩⟩ := exists_of_bind before
    exact hit _
  · exact .look (skipMark_miss token) (miss token)

theorem foreign {u : Stream} {P : Token → Prop} (construct : Construct) :
    EndsTree u (Pure.pure (.foreign construct)) P :=
  .pure fun tree => (Phrase.not_hasTree_foreign construct tree).elim

end Ends

end Parser

/-- **The nested parsers read as far as they go.** -/
structure Nested.Ends (r : Nested) : Prop where
  tells : r.Tells
  assignment : ∀ c : Context, c.inDecorator = false → ∀ u,
    Parser.EndsTree u (r.assignment c) (Settled c)
  binary : ∀ (bound : Nat) (c : Context), c.inDecorator = false → ∀ u,
    Parser.EndsTree u (r.binary bound c) (·.links = false)
  unary : ∀ c : Context, c.inDecorator = false → ∀ u,
    Parser.EndsTree u (r.unary c) (·.links = false)

namespace Parser

variable {r : Nested} {c : Context} (bare : c.inDecorator = false)
include bare

/-! ## Operands -/

theorem ends_memberRest (fuel : Nat) (u : Stream) (p : Phrase) (inChain : Bool) :
    Ends u (memberRest r c fuel p inChain) fun _ t =>
      t.links → t = .mark "?." ∨ t = .mark "(" := by
  induction fuel generalizing u p inChain with
  | zero => exact .failure
  | succ fuel ih =>
    rw [memberRest]
    refine .look (token_run u) ?_
    split
    · exact .bind fun _ v _ => .bind fun _ w _ => ih _ _ _
    · exact .bind fun _ v _ => .bind fun _ w _ => ih _ _ _
    · rw [if_neg (by simp [bare])]
      exact .bind fun _ v _ => ih _ _ _
    · rename_i token
      refine .look (ahead_run u) ?_
      split
      · rw [if_neg (by simp [bare])]
        exact .bind fun _ v _ => .bind fun _ w _ => ih _ _ _
      · exact .bind fun _ v _ => .bind fun _ w _ => ih _ _ _
      · exact .bind fun _ v _ => .bind fun _ w _ => ih _ _ _
      · exact .pure fun _ => .inl token
    · rename_i other point bracket optional
      refine .pure fun links => ?_
      cases token : u.token with
      | mark m =>
        rw [token] at links point bracket optional
        simp only [Token.links, List.contains_iff_mem, List.mem_cons, List.not_mem_nil] at links
        simp_all
      | template text last => exact (other text last token).elim
      | _ =>
        rw [token] at links
        cases links

theorem ends_callRest (fuel : Nat) (u : Stream) (p : Phrase) (inChain : Bool) :
    Ends u (callRest r c fuel p inChain) fun _ t => t.links = false := by
  induction fuel generalizing u p inChain with
  | zero => exact .failure
  | succ fuel ih =>
    rw [callRest]
    refine .look (fuel_run u) (.bind fun found v run => ?_)
    have linked := ends_memberRest bare _ u p inChain found v run
    refine .skipMark (fun w => .look (atMark_run _ w) ?_) fun point => .look (atMark_run _ v) ?_
    · split
      · exact .bind fun _ w _ => ih _ _ _
      · exact .failure
    · split
      · exact .bind fun _ w _ => ih _ _ _
      · rename_i parens
        refine .pure (Bool.eq_false_iff.2 fun links => ?_)
        rcases linked links with optional | called
        · exact point optional
        · simp [called] at parens

theorem ends_operand (u : Stream) : Ends u (operand r c) fun _ t => t.links = false := by
  unfold operand
  refine .bind fun p v _ => .look (fuel_run v) (.bind fun found w run => .pure ?_)
  exact ends_callRest bare _ v p false found w run

theorem ends_update (u : Stream) : EndsTree u (update r c) (·.links = false) := by
  unfold update
  refine .looks (looks_atMark _) fun increment => .looks (looks_atMark _) fun decrement => ?_
  split
  · exact .bind fun _ _ _ => .bind fun _ _ _ => .bind fun _ _ _ => .foreign _
  · refine .bind fun p v run => ?_
    refine .looks (looks_atMark _) fun increment => .looks (looks_atMark _) fun decrement => ?_
    refine .looks looks_get fun s => ?_
    split
    · exact .bind fun _ _ _ => .bind fun _ _ _ => .foreign _
    · exact .pure fun _ => ends_operand bare u p v run

end Parser

namespace Parser

variable {r : Nested} (ends : r.Ends) {c : Context} (bare : c.inDecorator = false)
include ends bare

theorem ends_unary (u : Stream) : EndsTree u (unary r c) (·.links = false) := by
  unfold unary
  refine .look (token_run u) ?_
  split
  · split
    · refine .bind fun _ v _ => .bind fun p w run => .pure fun tree => ?_
      exact ends.unary c bare v p w run tree.argument
    · exact ends_update bare u
  · split
    · refine .bind fun _ v _ => .bind fun p w run => .pure fun tree => ?_
      exact ends.unary c bare v p w run tree.argument
    · refine .looks (looks_atAwait c) fun awaits => ?_
      split
      · exact .bind fun _ _ _ => .bind fun _ _ _ => .bind fun _ _ _ => .foreign _
      · exact ends_update bare u
  · exact ends_update bare u

/-! ## Binary operators -/

theorem ends_binaryRest {bound : Nat} {leftParens : Bool} (fuel : Nat) {u : Stream} {left : Phrase}
    (before : left.HasTree → u.token.links = false) :
    EndsTree u (binaryRest r bound c leftParens fuel left) (·.links = false) := by
  induction fuel generalizing u left with
  | zero => exact .failure
  | succ fuel ih =>
    rw [binaryRest]
    refine .looks looks_atAnnotation fun annotated => ?_
    split
    · exact .failure_bind
    · refine .look (token_run u) ?_
      split
      · exact .pure before
      · split
        · exact .pure before
        · split
          all_goals
            refine .bind fun _ v _ => .looks (looks_atMark _) fun rightParens => ?_
            refine .bind fun right w run => .flawIf fun w' same => .flawIf fun w'' same' => ih ?_
            intro tree
            rw [same', same]
            exact ends.binary _ c bare v right w run tree.right

theorem ends_binary (bound : Nat) (u : Stream) :
    EndsTree u (binary r bound c) (·.links = false) := by
  unfold binary
  refine .looks (looks_atMark _) fun leftParens => .look (token_run u) ?_
  split
  · refine .bind fun left v run => .look (fuel_run v) (ends_binaryRest ends bare _ ?_)
    exact (foreign_hiddenTest ends.tells c bound).ends u (·.links = false) left v run
  · refine .bind fun left v run => .look (fuel_run v) (ends_binaryRest ends bare _ ?_)
    exact ends_unary ends bare u left v run

/-! ## Conditionals, assignments and arrow functions -/

theorem ends_assignmentRest {u : Stream} {left : Phrase}
    (links : left.HasTree → u.token.links = false) (operator : binaryOperator? c u.token = none) :
    EndsTree u (assignmentRest r c left) (Settled c) := by
  unfold assignmentRest
  refine .look (token_run u) ?_
  split
  · refine .bind fun _ _ _ => .bind fun _ _ _ => .bind fun _ v _ => .bind fun p w run => ?_
    exact .pure fun tree => ends.assignment c bare v p w run tree.alternate
  · rename_i m other token
    split
    · exact .bind fun _ _ _ => .bind fun _ _ _ => .bind fun _ _ _ => .foreign _
    · refine .pure fun tree => ⟨links tree, operator, fun question => ?_⟩
      rw [token] at question
      exact other (Token.mark.inj question)
  · rename_i question other
    exact .pure fun tree => ⟨links tree, operator, question⟩

theorem ends_operandsRest {u : Stream} {left : Phrase}
    (links : left.HasTree → u.token.links = false) (operator : binaryOperator? c u.token = none) :
    EndsTree u (operandsRest r c left) (Settled c) := by
  unfold operandsRest
  refine .look (token_run u) ?_
  split
  · exact (foreign_arrowTail ends.tells c false).ends _ _
  · exact ends_assignmentRest ends bare links operator

theorem ends_possibleArrow (u : Stream) : EndsTree u (possibleArrow r c) (Settled c) := by
  unfold possibleArrow
  refine .look (get_run u) ?_
  cases read : binary r 0 c u with
  | none => exact (foreign_arrow ends.tells c).ends _ _
  | some found =>
    obtain ⟨left, v⟩ := found
    have links := ends_binary ends bare 0 u left v read
    have operator := (stops_binary c read).operator
    dsimp only
    split
    · rename_i arrow
      cases head : arrowHead r c u with
      | some found => exact .bind fun _ _ _ => (foreign_arrowTail ends.tells c _).ends _ _
      | none =>
        rintro _ _ ⟨⟩ tree
        refine ⟨links tree, operator, fun question => ?_⟩
        simp [question] at arrow
    · intro p t run
      rw [bind_run (set_run u v)] at run
      exact ends_assignmentRest ends bare links operator p t run

theorem ends_arrowOrOperands (u : Stream) : EndsTree u (arrowOrOperands r c) (Settled c) := by
  unfold arrowOrOperands
  refine .look (get_run u) ?_
  split
  · refine .bind fun left v run => ?_
    exact ends_operandsRest ends bare (ends_binary ends bare 0 u left v run)
      (stops_binary c run).operator
  · exact ends_possibleArrow ends bare u
  · exact (foreign_arrow ends.tells c).ends _ _

theorem ends_assignment (u : Stream) : EndsTree u (assignment r c) (Settled c) := by
  unfold assignment
  refine .looks (looks_atYield c) fun yields => ?_
  split
  · exact (foreign_suspension ends.tells c).ends _ _
  · refine .looks looks_atAsyncArrow fun isAsync => ?_
    split
    · exact .bind fun _ _ _ => .bind fun _ _ _ => (foreign_arrowTail ends.tells c true).ends _ _
    · exact ends_arrowOrOperands ends bare u

/-! ## The comma operator -/

theorem ends_expressionRest (fuel : Nat) (u : Stream) :
    Ends u (expressionRest r c fuel) fun ps t => t ≠ .mark "," ∧
      ((∀ p ∈ ps, p.HasTree) → Settled c u.token → Settled c t) := by
  induction fuel generalizing u with
  | zero => exact .failure
  | succ fuel ih =>
    rw [expressionRest]
    refine .skipMark (fun v => ?_) fun comma => ?_
    · refine .bind fun p w run => .bind fun ps w' rest => .pure ?_
      obtain ⟨comma, later⟩ := ih w ps w' rest
      refine ⟨comma, fun trees _ => ?_⟩
      obtain ⟨tree, trees⟩ := List.forall_mem_cons.1 trees
      exact later trees (ends.assignment c bare v p w run tree)
    · exact .pure ⟨comma, fun _ settled => settled⟩

end Parser

/-- **All nested parsers read as far as they go.** -/
theorem nested_ends (depth : Nat) : (nested depth).Ends := by
  induction depth with
  | zero =>
    exact {
      tells := nested_tells 0
      assignment := fun _ _ _ => .failure
      binary := fun _ _ _ _ => .failure
      unary := fun _ _ _ => .failure }
  | succ depth ends =>
    exact {
      tells := nested_tells (depth + 1)
      assignment := fun _ bare => Parser.ends_assignment ends bare
      binary := fun bound _ bare => Parser.ends_binary ends bare bound
      unary := fun _ bare => Parser.ends_unary ends bare }

/-- **An expression is read as far as it goes**: what stands after it does not continue it. -/
theorem ends_expression (depth : Nat) (u : Stream) :
    Parser.EndsTree u (Parser.expression (nested depth) {}) (·.continuesExpression = false) := by
  have ends := nested_ends depth
  unfold Parser.expression
  refine .bind fun p v first => .look (Parser.fuel_run v) (.bind fun ps w rest => ?_)
  obtain ⟨comma, later⟩ := Parser.ends_expressionRest ends rfl _ v ps w rest
  have settled := ends.assignment _ rfl u p v first
  cases ps with
  | nil => exact .pure fun tree => (later (by simp) (settled tree)).not_continues comma
  | cons q ps =>
    refine .pure fun tree => ?_
    obtain ⟨tree, trees⟩ := List.forall_mem_cons.1 tree.parts
    exact (later trees (settled tree)).not_continues comma

end MiniTemplate.Script
