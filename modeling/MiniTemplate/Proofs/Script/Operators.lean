import MiniTemplate.Proofs.Script.Operands

/-!
# Operators that are read back

Which lexemes the rules for operators read as which tree. Each tree has a rank: 0 for
sequences, 1 for conditionals, one more than its precedence for a binary operation, 14 for a
unary one and 15 for operands. A binary operation leans to the left, and one loop reads all
operators that bind tighter than a bound; as for operands, `ParsesBinary` says which state
of the loop is reached after the lexemes.

`Recovered` gathers what lexemes are read as, at every level that their rank allows.
-/

namespace MiniTemplate.Script

open MiniTemplate.Script.Parser

/-! ## Unary operators -/

/-- The lexeme of an operator. -/
def operatorLexeme (operator : String) : Lexeme :=
  if ["in", "instanceof", "typeof", "void", "delete"].contains operator then .word operator
  else .mark operator

/-- Lexemes of rank `k` are read as an operand with its unary operators. -/
def ParsesUnary (k : Nat) (ls : List Lexeme) (e : Expr) : Prop :=
  ∀ (n : Nat) ⦃s u : Stream⦄, Reads s ls u → u.token.settles 14 → s.left ≤ n →
    ∃ p, unary (nested n) {} s = some (p, u) ∧ p.lower = .ok e ∧ p.isConnective = false ∧
      (p.isUnary → k = 14)

theorem update_run {r : Nested} {s u : Stream} {p : Phrase} (starts : s.token.startsOperandOf)
    (read : operand r {} s = some (p, u)) (settles : u.token.settles 14) :
    update r {} s = some (p, u) := by
  have increment : s.token ≠ .mark "++" := by
    intro same
    rw [same] at starts
    cases starts
  have decrement : s.token ≠ .mark "--" := by
    intro same
    rw [same] at starts
    cases starts
  have increment' : u.token ≠ .mark "++" := Token.ne_of_settles settles rfl
  have decrement' : u.token ≠ .mark "--" := Token.ne_of_settles settles rfl
  unfold update
  rw [bind_run (atMark_run "++" s), beq_false_of_ne increment, bind_run (atMark_run "--" s),
    beq_false_of_ne decrement]
  simp only [Bool.or_false, Bool.false_eq_true, if_false]
  rw [bind_run read, bind_run (atMark_run "++" u), beq_false_of_ne increment',
    bind_run (atMark_run "--" u), beq_false_of_ne decrement', bind_run (get_run u)]
  rfl

theorem unary_eq_update {r : Nested} {s : Stream} (starts : s.token.startsOperandOf) :
    unary r {} s = update r {} s := by
  unfold unary
  rw [bind_run (token_run s)]
  cases token : s.token with
  | mark m =>
    have other : ¬ (m == "+" || m == "-" || m == "~" || m == "!") = true := by
      rw [token] at starts
      simp only [Token.startsOperandOf, List.contains_eq_mem, List.mem_cons, List.not_mem_nil,
        or_false, decide_eq_true_eq] at starts
      rcases starts with rfl | rfl | rfl <;> decide
    simp only [if_neg other]
  | word w escaped =>
    rw [token] at starts
    simp only [Token.startsOperandOf, List.contains_eq_mem, List.mem_cons, List.not_mem_nil,
      or_false, Bool.not_eq_true', decide_eq_false_iff_not, not_or] at starts
    have other : ¬ (w == "typeof" || w == "void" || w == "delete") = true := by simp [starts]
    have await : atAwait {} s = some (false, s) := by
      unfold atAwait
      rw [bind_run (atWord_run "await" s), token]
      simp [Token.isWord, starts, pure_run]
    simp only [if_neg other]
    rw [bind_run await]
    rfl
  | _ => rfl

theorem Phrase.isConnective_of_isTerm {p : Phrase} (term : p.isTerm) : p.isConnective = false := by
  cases p <;> simp_all [Phrase.isTerm, Phrase.isConnective]

theorem Phrase.isUnary_of_isTerm {p : Phrase} (term : p.isTerm) : p.isUnary = false := by
  cases p <;> simp_all [Phrase.isTerm, Phrase.isUnary]

theorem ParsesOperand.unary {ls : List Lexeme} {e : Expr} (parses : ParsesOperand ls e)
    (begins : Begins Token.startsOperandOf ls) : ParsesUnary 15 ls e := by
  intro n s u reads settles deep
  have starts := begins.token reads
  obtain ⟨p, read, lower, term⟩ := parses.operand_run n reads settles deep
  refine ⟨p, ?_, lower, Phrase.isConnective_of_isTerm term, ?_⟩
  · rw [unary_eq_update starts]
    exact update_run starts read settles
  · simp [Phrase.isUnary_of_isTerm term]

theorem ParsesUnary.nested_run {k : Nat} {ls : List Lexeme} {e : Expr} (parses : ParsesUnary k ls e)
    (n : Nat) {s u : Stream} (reads : Reads s ls u) (settles : u.token.settles 14)
    (deep : s.left < n) : ∃ p, (nested n).unary {} s = some (p, u) ∧ p.lower = .ok e := by
  obtain ⟨n, rfl⟩ : ∃ m, n = m + 1 := ⟨n - 1, by omega⟩
  obtain ⟨p, read, lower, -⟩ := parses n reads settles (by omega)
  exact ⟨p, read, lower⟩

/-- A unary operator before an operand, or before another one. -/
theorem ParsesUnary.operation {k : Nat} {ls : List Lexeme} {e : Expr} (parses : ParsesUnary k ls e)
    {operator : String} (known : operator ∈ unaryOperators) :
    ParsesUnary 14 (operatorLexeme operator :: ls) (.unary operator e) := by
  intro n s u reads settles deep
  obtain ⟨t, token, next, fewer, later⟩ := reads.cons_plain (by
    unfold operatorLexeme
    split <;> rfl)
  obtain ⟨p, read, lower⟩ := parses.nested_run n later settles (by omega)
  refine ⟨.unary operator p, ?_,
    by simp [Phrase.lower, lower, bind, Except.bind, pure, Except.pure], rfl, fun _ => rfl⟩
  have kinds : ∀ o ∈ unaryOperators,
      operatorLexeme o = .mark o ∧ (o == "+" || o == "-" || o == "~" || o == "!") = true ∨
        operatorLexeme o = .word o ∧ (o == "typeof" || o == "void" || o == "delete") = true := by
    decide
  unfold Parser.unary
  rw [bind_run (token_run s)]
  rcases kinds operator known with ⟨mark, listed⟩ | ⟨word, listed⟩
  · rw [mark] at token
    rw [token]
    simp only [Lexeme.token, if_pos listed]
    rw [bind_run (advance_run next), bind_run read]
    rfl
  · rw [word] at token
    rw [token]
    simp only [Lexeme.token, if_pos listed]
    rw [bind_run (takeWord_run token next), bind_run read]
    rfl

/-! ## Binary operators -/

/-- How tightly a token may bind lexemes of rank `k` before it, so that it does not take
their last operand away from them: an operator may follow its like, powers and unary
operations aside. -/
def reach (k : Nat) : Nat := if k = 15 then 14 else min (k + 1) 13

/-- The least rank of what the loop over operators reads that bind tighter than a bound. -/
def leastRank (bound : Nat) : Nat := min (bound + 2) 13

/-- **Lexemes of rank `k` are read as joined operands**: after them the loop has reached
their tree, with enough fuel for what is ahead. -/
def ParsesBinary (k : Nat) (ls : List Lexeme) (e : Expr) : Prop :=
  ∀ (n bound : Nat) ⦃s u : Stream⦄, Reads s ls u → u.token.settles (reach k) → s.left ≤ n →
    bound ≤ 12 → leastRank bound ≤ k →
    ∃ p fuel, binary (nested n) bound {} s
        = binaryRest (nested n) bound {} (s.token == .mark "(") fuel p u ∧
      u.left < fuel ∧ p.lower = .ok e ∧ (p.isConnective → k = 3 ∨ k = 4) ∧ (p.isUnary → k = 14)

theorem ParsesUnary.binary {k : Nat} {ls : List Lexeme} {e : Expr} (parses : ParsesUnary k ls e)
    (begins : Begins Token.startsExpression ls) : ParsesBinary k ls e := by
  intro n bound s u reads settles deep _ _
  have starts := begins.token reads
  have settles' : u.token.settles 14 := Token.settles_mono settles (by unfold reach; split <;> omega)
  obtain ⟨p, read, lower, connective, isUnary⟩ := parses n reads settles' deep
  refine ⟨p, u.fuel, ?_, u.left_lt_fuel, lower, by simp [connective], isUnary⟩
  unfold Parser.binary
  rw [bind_run (atMark_run "(" s), bind_run (token_run s)]
  cases token : s.token with
  | hidden name =>
    rw [token] at starts
    cases starts
  | _ =>
    show (Parser.unary (nested n) {} >>= _) s = _
    rw [bind_run read]
    exact bind_run (fuel_run u)

theorem mem_of_binaryOperator? {t : Token} {operator : String} {precedence : Nat}
    (found : binaryOperator? {} t = some (operator, precedence)) :
    (operator, precedence) ∈ binaryOperators := by
  cases t with
  | mark m =>
    simp only [binaryOperator?] at found
    exact List.mem_of_find?_eq_some found
  | word w escaped =>
    simp only [binaryOperator?] at found
    split at found
    · rename_i listed
      cases found
      simp only [Bool.and_true, Bool.or_eq_true, beq_iff_eq] at listed
      rcases listed with rfl | rfl <;> decide
    · cases found
  | _ => cases found

theorem atAnnotation_miss {s : Stream} (settles : s.token.settles 14) :
    atAnnotation s = some (false, s) := by
  have as : s.token.isWord "as" = false :=
    Token.isWord_eq_false fun _ => Token.ne_of_settles settles rfl
  have satisfies : s.token.isWord "satisfies" = false :=
    Token.isWord_eq_false fun _ => Token.ne_of_settles settles rfl
  unfold atAnnotation
  rw [bind_run (atWord_run "as" s), as, bind_run (atWord_run "satisfies" s), satisfies,
    bind_run (get_run s)]
  rfl

theorem settles_of_operator {t : Token} {operator : String} {precedence : Nat}
    (found : binaryOperator? {} t = some (operator, precedence)) (k : Nat) :
    t.settles k ↔ precedence + 2 ≤ k := by
  simp [Token.settles, Token.pull, found]

/-- What the table of operators says about precedences. -/
theorem precedence_facts {operator : String} {precedence : Nat}
    (known : (operator, precedence) ∈ binaryOperators) :
    1 ≤ precedence ∧ precedence ≤ 12 ∧ (operator = "**" ↔ precedence = 12) ∧
      (operator = "??" ↔ precedence = 1) ∧
      (isLogical operator → operator ≠ "??" → precedence = 2 ∨ precedence = 3) := by
  have all : ∀ entry ∈ binaryOperators, 1 ≤ entry.2 ∧ entry.2 ≤ 12 ∧
      (entry.1 = "**" ↔ entry.2 = 12) ∧ (entry.1 = "??" ↔ entry.2 = 1) ∧
      (isLogical entry.1 → entry.1 ≠ "??" → entry.2 = 2 ∨ entry.2 = 3) := by decide
  exact all _ known

theorem binaryOperator?_operatorLexeme {operator : String} {precedence : Nat}
    (known : (operator, precedence) ∈ binaryOperators) :
    binaryOperator? {} (operatorLexeme operator).token = some (operator, precedence) := by
  have all : ∀ entry ∈ binaryOperators,
      binaryOperator? {} (operatorLexeme entry.1).token = some entry := by decide
  exact all _ known

/-- The loop over operators ends before a token that binds no tighter than its bound. -/
theorem binaryRest_stop {r : Nested} {bound fuel : Nat} {leftParens : Bool} {p : Phrase} {s : Stream}
    (settles : s.token.settles (leastRank bound)) :
    binaryRest r bound {} leftParens (fuel + 1) p s = some (p, s) := by
  have plain : s.token.settles 14 :=
    Token.settles_mono settles (by unfold leastRank; omega)
  rw [binaryRest, bind_run (atAnnotation_miss plain)]
  simp only [Bool.and_false, Bool.false_eq_true, if_false]
  rw [bind_run (token_run s)]
  cases found : binaryOperator? {} s.token with
  | none => rfl
  | some entry =>
    obtain ⟨operator, precedence⟩ := entry
    have weak := (settles_of_operator found _).1 settles
    unfold leastRank at weak
    have power := (precedence_facts (mem_of_binaryOperator? found)).2.2.1
    -- Another power goes on after a power, so there the token has to bind less tightly.
    have loose : continues bound operator precedence = false := by
      have notTighter : ¬ bound < precedence := by omega
      have notPower : bound = precedence → operator ≠ "**" := by
        intro _ same
        have highest := power.1 same
        omega
      simpa [continues, notTighter] using notPower
    simp only [loose, Bool.not_false, if_true]
    rfl

/-- Joined operands of some rank are read whole. -/
theorem ParsesBinary.run {k : Nat} {ls : List Lexeme} {e : Expr} (parses : ParsesBinary k ls e)
    (n bound : Nat) {s u : Stream} (reads : Reads s ls u)
    (settles : u.token.settles (leastRank bound)) (deep : s.left ≤ n) (loose : bound ≤ 12)
    (rank : leastRank bound ≤ k) (most : k ≤ 15) :
    ∃ p, binary (nested n) bound {} s = some (p, u) ∧ p.lower = .ok e ∧
      (p.isConnective → k = 3 ∨ k = 4) := by
  have settles' : u.token.settles (reach k) :=
    Token.settles_mono settles (by unfold leastRank reach at *; split <;> omega)
  obtain ⟨p, fuel, reached, enough, lower, connective, -⟩ :=
    parses n bound reads settles' deep loose rank
  obtain ⟨fuel, rfl⟩ : ∃ f, fuel = f + 1 := ⟨fuel - 1, by omega⟩
  exact ⟨p, by rw [reached, binaryRest_stop settles], lower, connective⟩

theorem ParsesBinary.nested_run {k : Nat} {ls : List Lexeme} {e : Expr} (parses : ParsesBinary k ls e)
    (n bound : Nat) {s u : Stream} (reads : Reads s ls u)
    (settles : u.token.settles (leastRank bound)) (deep : s.left < n) (loose : bound ≤ 12)
    (rank : leastRank bound ≤ k) (most : k ≤ 15) :
    ∃ p, (nested n).binary bound {} s = some (p, u) ∧ p.lower = .ok e ∧
      (p.isConnective → k = 3 ∨ k = 4) := by
  obtain ⟨n, rfl⟩ : ∃ m, n = m + 1 := ⟨n - 1, by omega⟩
  exact parses.run n bound reads settles (by omega) loose rank most

/-- The tree that an operator makes of two others. -/
def Expr.joined (operator : String) (left right : Expr) : Expr :=
  if isLogical operator then .logical operator left right else .binary operator left right

theorem lower_joined {operator : String} {p q : Phrase} {left right : Expr}
    (lowerLeft : p.lower = .ok left) (lowerRight : q.lower = .ok right) :
    (Phrase.joined operator p q).lower = .ok (.joined operator left right) := by
  unfold Phrase.joined Expr.joined
  split <;> simp [Phrase.lower, lowerLeft, lowerRight, bind, Except.bind, pure, Except.pure]

/-- Whether an operand of rank `k` may stand before an operator: not if the operator binds
tighter, a power takes no unary operation, and `??` neither `||` nor `&&`. -/
def leftFits (operator : String) (precedence k : Nat) : Bool :=
  if operator = "**" then k == 15
  else if operator = "??" then k == 2 || 5 ≤ k
  else precedence + 1 ≤ k

/-- Whether an operand of rank `k` may stand after an operator: not if another one of the
same precedence would take it away, powers aside, and `??` takes neither `||` nor `&&`. -/
def rightFits (operator : String) (precedence k : Nat) : Bool :=
  if operator = "**" then 13 ≤ k
  else if operator = "??" then 5 ≤ k
  else precedence + 2 ≤ k

/-- An operator with its right operand is one step of the loop over operators. -/
theorem binaryRest_step {r : Nested} {bound fuel precedence : Nat} {leftParens : Bool}
    {operator : String} {left right : Phrase} {s t u : Stream}
    (known : (operator, precedence) ∈ binaryOperators)
    (token : s.token = (operatorLexeme operator).token) (next : s.next? = some t)
    (goes : continues bound operator precedence = true)
    (read : r.binary precedence {} t = some (right, u))
    (unmixed : operator = "??" → left.isConnective = false ∧ right.isConnective = false)
    (power : operator = "**" → left.isUnary = false) :
    binaryRest r bound {} leftParens (fuel + 1) left s
      = binaryRest r bound {} leftParens fuel (.joined operator left right) u := by
  have found : binaryOperator? {} s.token = some (operator, precedence) := by
    rw [token]
    exact binaryOperator?_operatorLexeme known
  have settles : s.token.settles 14 := by
    have most := (precedence_facts known).2.1
    rw [settles_of_operator found]
    omega
  have mix : (operator == "??" &&
      Phrase.mixes leftParens (t.token == .mark "(") left right) = false := by
    by_cases same : operator = "??"
    · obtain ⟨ofLeft, ofRight⟩ := unmixed same
      simp [Phrase.mixes, ofLeft, ofRight]
    · simp [same]
  have base : (operator == "**" && left.isUnary) = false := by
    by_cases same : operator = "**"
    · simp [power same]
    · simp [same]
  rw [binaryRest, bind_run (atAnnotation_miss settles)]
  simp only [Bool.and_false, Bool.false_eq_true, if_false]
  rw [bind_run (token_run s), found]
  simp only [goes, Bool.not_true, Bool.false_eq_true, if_false]
  by_cases word : (operator == "in" || operator == "instanceof") = true
  · have lexeme : operatorLexeme operator = .word operator := by
      simp only [Bool.or_eq_true, beq_iff_eq] at word
      rcases word with rfl | rfl <;> rfl
    rw [lexeme] at token
    rw [if_pos word, bind_run (takeWord_run token next), bind_run (atMark_run "(" t), bind_run read,
      mix, bind_run (flawIf_false u), base, bind_run (flawIf_false u)]
  · rw [if_neg word, bind_run (advance_run next), bind_run (atMark_run "(" t), bind_run read,
      mix, bind_run (flawIf_false u), base, bind_run (flawIf_false u)]

section
variable {operator : String} {precedence : Nat} (known : (operator, precedence) ∈ binaryOperators)
include known

theorem rank_of_leftFits {j : Nat} (fits : leftFits operator precedence j) :
    precedence + 1 ≤ j ∧ precedence + 2 ≤ reach j ∧ (operator = "??" → ¬ (j = 3 ∨ j = 4)) ∧
      (operator = "**" → j ≠ 14) := by
  obtain ⟨least, most, power, coalesce, -⟩ := precedence_facts known
  unfold leftFits at fits
  unfold reach
  split_ifs at fits with isPower isCoalesce
  · have highest := power.1 isPower
    simp only [beq_iff_eq] at fits
    simp [fits, highest]
  · have lowest := coalesce.1 isCoalesce
    simp only [Bool.or_eq_true, beq_iff_eq, decide_eq_true_eq] at fits
    refine ⟨by omega, by split <;> omega, fun _ => by omega, fun same => absurd same isPower⟩
  · have below : precedence ≠ 12 := fun same => isPower (power.2 same)
    simp only [decide_eq_true_eq] at fits
    exact ⟨fits, by split <;> omega, fun same => absurd same isCoalesce,
      fun same => absurd same isPower⟩

theorem rank_of_rightFits {k : Nat} (fits : rightFits operator precedence k) :
    leastRank precedence ≤ k ∧ (operator = "??" → ¬ (k = 3 ∨ k = 4)) := by
  obtain ⟨least, most, power, coalesce, -⟩ := precedence_facts known
  unfold rightFits at fits
  unfold leastRank
  split_ifs at fits with isPower isCoalesce
  · have highest := power.1 isPower
    simp only [decide_eq_true_eq] at fits
    exact ⟨by omega, fun _ => by omega⟩
  · have lowest := coalesce.1 isCoalesce
    simp only [decide_eq_true_eq] at fits
    exact ⟨by omega, fun _ => by omega⟩
  · simp only [decide_eq_true_eq] at fits
    exact ⟨by omega, fun same => absurd same isCoalesce⟩

theorem continues_of_rank {bound : Nat} (loose : bound ≤ 12)
    (rank : leastRank bound ≤ precedence + 1) : continues bound operator precedence = true := by
  obtain ⟨least, most, power, -⟩ := precedence_facts known
  unfold leastRank at rank
  by_cases tighter : bound < precedence
  · simp [continues, tighter]
  · have same : bound = precedence := by omega
    have isPower : operator = "**" := power.2 (by omega)
    simp [continues, same, isPower]

theorem isConnective_joined {p q : Phrase} (connective : (Phrase.joined operator p q).isConnective) :
    precedence + 1 = 3 ∨ precedence + 1 = 4 := by
  obtain ⟨-, -, -, -, logical⟩ := precedence_facts known
  unfold Phrase.joined at connective
  split at connective
  · rename_i isLogical
    have other : operator ≠ "??" := by simpa [Phrase.isConnective] using connective
    have := logical isLogical other
    omega
  · cases connective

/-- **A binary operator joins two operands** that may stand next to it. -/
theorem ParsesBinary.operation {j k : Nat} {ls rs : List Lexeme} {left right : Expr}
    (parsesLeft : ParsesBinary j ls left) (parsesRight : ParsesBinary k rs right)
    (fitsLeft : leftFits operator precedence j) (fitsRight : rightFits operator precedence k)
    (most : k ≤ 15) :
    ParsesBinary (precedence + 1) (ls ++ operatorLexeme operator :: rs)
      (.joined operator left right) := by
  intro n bound s u reads settles deep loose rank
  obtain ⟨v, first, tail⟩ := Reads.append_iff.1 reads
  obtain ⟨t, token, next, fewer, later⟩ := tail.cons_plain (by
    unfold operatorLexeme
    split <;> rfl)
  have before := first.left_le
  have after := later.left_le
  have highest := (precedence_facts known).2.1
  obtain ⟨leftRank, leftReach, leftUnmixed, leftBase⟩ := rank_of_leftFits known fitsLeft
  obtain ⟨rightRank, rightUnmixed⟩ := rank_of_rightFits known fitsRight
  -- The left operand leaves the loop right before the operator; the operator with its right
  -- operand is the next step.
  have settlesLeft : v.token.settles (reach j) := by
    rw [token, settles_of_operator (binaryOperator?_operatorLexeme known)]
    exact leftReach
  have settlesRight : u.token.settles (leastRank precedence) :=
    Token.settles_mono settles (by unfold reach leastRank; split <;> omega)
  obtain ⟨p, fuel, reached, enough, lowerLeft, connectiveLeft, unaryLeft⟩ :=
    parsesLeft n bound first settlesLeft deep loose (Nat.le_trans rank leftRank)
  obtain ⟨q, read, lowerRight, connectiveRight⟩ :=
    parsesRight.nested_run n precedence later settlesRight (by omega) highest rightRank most
  obtain ⟨fuel, rfl⟩ : ∃ f, fuel = f + 1 := ⟨fuel - 1, by omega⟩
  refine ⟨.joined operator p q, fuel, ?_, by omega, lower_joined lowerLeft lowerRight,
    isConnective_joined known, ?_⟩
  · rw [reached]
    refine binaryRest_step known token next (continues_of_rank known loose rank) read ?_ ?_
    · intro same
      exact ⟨Bool.eq_false_iff.2 fun is => leftUnmixed same (connectiveLeft is),
        Bool.eq_false_iff.2 fun is => rightUnmixed same (connectiveRight is)⟩
    · intro same
      exact Bool.eq_false_iff.2 fun is => leftBase same (unaryLeft is)
  · unfold Phrase.joined
    split <;> exact fun is => by cases is

end

/-! ## Conditionals -/

theorem ofParameters_ne_certain {s : Stream} (starts : s.token.startsExpression) :
    Likelihood.ofParameters s ≠ .certain := by
  unfold Likelihood.ofParameters
  cases token : s.token with
  | word w escaped =>
    simp only
    split
    · unfold Likelihood.ofParameter
      split
      · split <;> decide
      · decide
    · decide
  | mark m =>
    have closing : m ≠ ")" := by
      rintro rfl
      rw [token] at starts
      cases starts
    have dots : m ≠ "..." := by
      rintro rfl
      rw [token] at starts
      cases starts
    simp only [beq_iff_eq, closing, dots, if_false]
    split <;> decide
  | _ => exact fun same => by cases same

theorem Begins.isWord {ls : List Lexeme} (begins : Begins Token.startsExpression ls) {s u : Stream}
    (reads : Reads s ls u) {w : String} (other : w ∈ ["async", "await", "yield"]) :
    s.token.isWord w = false := by
  refine Token.isWord_eq_false fun escaped same => ?_
  have starts := begins.token reads
  rw [same] at starts
  simp only [List.mem_cons, List.not_mem_nil, or_false] at other
  rcases other with rfl | rfl | rfl <;> cases starts

/-- No arrow function with parentheses around its parameters is sure to start where an
expression of the language does. -/
theorem Begins.ofStart_ne_certain {ls : List Lexeme} (begins : Begins Token.startsExpression ls)
    {s u : Stream} (reads : Reads s ls u) : Likelihood.ofStart s ≠ .certain := by
  have async := begins.isWord reads (by decide : "async" ∈ ["async", "await", "yield"])
  simp only [Likelihood.ofStart, async, Bool.false_eq_true, if_false]
  unfold Likelihood.ofParens
  split
  · rename_i opens
    obtain ⟨l, rest, rfl, plain, first, parens⟩ := begins
    obtain ⟨t, token, next, -, later⟩ := reads.cons_plain plain
    have isParens : l = .mark "(" := by
      rw [token, beq_iff_eq] at opens
      exact Lexeme.eq_mark_of_token opens
    obtain ⟨m, more, rfl, plainNext, starts⟩ := parens isParens
    obtain ⟨_, inner, -⟩ := later.cons_plain plainNext
    rw [next]
    exact ofParameters_ne_certain (by rw [inner]; exact starts)
  · decide

/-- Where an expression of the language starts, its operands are read first. -/
theorem assignment_eq {ls : List Lexeme} (begins : Begins Token.startsExpression ls) {n : Nat}
    {s u : Stream} {p : Phrase} (reads : Reads s ls u)
    (read : binary (nested n) 0 {} s = some (p, u)) (arrow : u.token ≠ .mark "=>") :
    assignment (nested n) {} s = assignmentRest (nested n) {} p u := by
  have yield : atYield {} s = some (false, s) := by
    unfold atYield
    rw [bind_run (atWord_run "yield" s), begins.isWord reads (by decide)]
    rfl
  have async : atAsyncArrow s = some (false, s) := by
    unfold atAsyncArrow
    rw [bind_run (atWord_run "async" s), begins.isWord reads (by decide)]
    rfl
  unfold assignment
  rw [bind_run yield]
  simp only [Bool.false_eq_true, if_false]
  rw [bind_run async]
  simp only [Bool.false_eq_true, if_false]
  unfold arrowOrOperands
  rw [bind_run (get_run s)]
  cases likelihood : Likelihood.ofStart s with
  | never =>
    simp only
    rw [bind_run read]
    unfold operandsRest
    rw [bind_run (token_run u)]
    refine congrFun ?_ u
    split
    · rename_i same
      exact absurd same arrow
    · rfl
  | possible =>
    -- The text may start an arrow function, but the operands are tried first and no arrow
    -- follows them.
    show possibleArrow (nested n) {} s = _
    unfold possibleArrow
    rw [bind_run (get_run s), read]
    simp only [beq_false_of_ne arrow, Bool.false_eq_true, if_false]
    rw [bind_run (set_run s u)]
  | certain => exact absurd likelihood (begins.ofStart_ne_certain reads)

theorem assignmentRest_stop {r : Nested} {p : Phrase} {s : Stream} (settles : s.token.settles 1) :
    assignmentRest r {} p s = some (p, s) := by
  unfold assignmentRest
  rw [bind_run (token_run s)]
  cases token : s.token with
  | mark m =>
    rw [token] at settles
    have question : m ≠ "?" := by
      rintro rfl
      cases settles
    have other : m ∉ assignmentOperators := by
      intro listed
      have none : ∀ m ∈ assignmentOperators, (Token.mark m).settles 1 = false := by decide
      rw [none m listed] at settles
      cases settles
    simp [other, pure_run]
  | _ => rfl

/-- Joined operands that nothing follows are an expression without comma operator. -/
theorem ParsesBinary.assignment {k : Nat} {ls : List Lexeme} {e : Expr}
    (parses : ParsesBinary k ls e) (begins : Begins Token.startsExpression ls) (least : 2 ≤ k)
    (most : k ≤ 15) : ParsesAssignment ls e := by
  intro n s u reads settles deep
  obtain ⟨p, read, lower, -⟩ := parses.run n 0 reads (Token.settles_mono settles (by decide)) deep
    (by decide) least most
  refine ⟨p, ?_, lower⟩
  rw [assignment_eq begins reads read (Token.ne_of_settles settles rfl)]
  exact assignmentRest_stop settles

/-- **A conditional** tests joined operands. -/
theorem parsesAssignment_conditional {k : Nat} {ts cs as : List Lexeme}
    {test consequent alternate : Expr} (parsesTest : ParsesBinary k ts test)
    (begins : Begins Token.startsExpression ts) (least : 2 ≤ k) (most : k ≤ 15)
    (parsesConsequent : ParsesAssignment cs consequent)
    (parsesAlternate : ParsesAssignment as alternate) :
    ParsesAssignment (ts ++ .mark "?" :: (cs ++ .mark ":" :: as))
      (.conditional test consequent alternate) := by
  intro n s u reads settles deep
  obtain ⟨v, first, tail⟩ := Reads.append_iff.1 reads
  obtain ⟨w, question, next, fewer, tail⟩ := tail.cons_mark
  obtain ⟨x, second, tail⟩ := Reads.append_iff.1 tail
  obtain ⟨y, colon, after, fewer', third⟩ := tail.cons_mark
  have before := first.left_le
  have between := second.left_le
  obtain ⟨p, read, lower, -⟩ := parsesTest.run n 0 first (by rw [question]; decide) deep
    (by decide) least most
  obtain ⟨q, readConsequent, lowerConsequent⟩ :=
    parsesConsequent.nested_run n second (by rw [colon]; rfl) (by omega)
  obtain ⟨r, readAlternate, lowerAlternate⟩ :=
    parsesAlternate.nested_run n third settles (by omega)
  refine ⟨.conditional p q r, ?_,
    by simp [Phrase.lower, lower, lowerConsequent, lowerAlternate, bind, Except.bind, pure,
      Except.pure]⟩
  rw [assignment_eq begins first read (by simp [question])]
  unfold assignmentRest
  rw [bind_run (token_run v), question]
  simp only
  rw [bind_run (advance_run next), Context.bracketed_default, bind_run readConsequent,
    bind_run (expectMark_hit colon after), bind_run readAlternate]
  rfl

/-! ## Sequences -/

theorem expressionRest_run {parts : Expr → List Lexeme} :
    ∀ {es : List Expr}, (∀ e ∈ es, ParsesAssignment (parts e) e) →
      ∀ (fuel n : Nat) {s u : Stream},
        Reads s (es.flatMap fun e => .mark "," :: parts e) u → u.token.settles 0 → s.left ≤ n →
        s.left < fuel →
        s.token.settles 1 ∧
        ∃ ps, expressionRest (nested n) {} fuel s = some (ps, u) ∧ Phrase.lowerAll ps = .ok es := by
  intro es
  induction es with
  | nil =>
    intro _ fuel n s u reads settles _ enough
    obtain ⟨fuel, rfl⟩ : ∃ f, fuel = f + 1 := ⟨fuel - 1, by omega⟩
    obtain rfl := reads.eq_of_nil
    refine ⟨Token.settles_mono settles (by decide), [], ?_, rfl⟩
    rw [expressionRest, bind_run (skipMark_miss (Token.ne_of_settles settles rfl))]
    rfl
  | cons e es ih =>
    intro each fuel n s u reads settles deep enough
    obtain ⟨fuel, rfl⟩ : ∃ f, fuel = f + 1 := ⟨fuel - 1, by omega⟩
    rw [List.flatMap_cons, List.cons_append] at reads
    obtain ⟨t, comma, next, fewer, tail⟩ := reads.cons_mark
    obtain ⟨v, first, tail⟩ := Reads.append_iff.1 tail
    have before := first.left_le
    obtain ⟨settlesFirst, ps, later, lowers⟩ :=
      ih (fun e member => each e (List.mem_cons_of_mem _ member)) fuel n tail settles (by omega)
        (by omega)
    obtain ⟨p, read, lower⟩ :=
      (each e List.mem_cons_self).nested_run n first settlesFirst (by omega)
    refine ⟨by rw [comma]; rfl, p :: ps, ?_,
      by simp [Phrase.lowerAll, lower, lowers, bind, Except.bind, pure, Except.pure]⟩
    rw [expressionRest, bind_run (skipMark_hit comma next)]
    simp only [if_true]
    rw [bind_run read, bind_run later]
    rfl

theorem withCommas_cons (ls : List Lexeme) (rest : List (List Lexeme)) :
    withCommas (ls :: rest) = ls ++ rest.flatMap fun ms => .mark "," :: ms := by
  induction rest generalizing ls with
  | nil => simp [withCommas]
  | cons ms rest ih =>
    rw [withCommas, ih ms]
    · simp
    · simp

theorem lowerAll_eq_nil {ps : List Phrase} (lowers : Phrase.lowerAll ps = .ok []) : ps = [] := by
  cases ps with
  | nil => rfl
  | cons p ps =>
    cases lower : p.lower <;> cases rest : Phrase.lowerAll ps <;>
      simp [Phrase.lowerAll, lower, rest, bind, Except.bind, pure, Except.pure] at lowers

/-- The parts of an expression with the comma operator; there may be a single one. -/
theorem expression_run (parts : Expr → List Lexeme) (e : Expr) (es : List Expr)
    (each : ∀ f ∈ e :: es, ParsesAssignment (parts f) f) (n : Nat) {s u : Stream}
    (reads : Reads s (withCommas ((e :: es).map parts)) u) (settles : u.token.settles 0)
    (deep : s.left < n) :
    ∃ p ps, expression (nested n) {} s = some (if es = [] then p else .sequence (p :: ps), u) ∧
      p.lower = .ok e ∧ Phrase.lowerAll (p :: ps) = .ok (e :: es) := by
  rw [List.map_cons, withCommas_cons, List.flatMap_map] at reads
  obtain ⟨v, first, tail⟩ := Reads.append_iff.1 reads
  have before := first.left_le
  obtain ⟨settlesFirst, ps, later, lowers⟩ :=
    expressionRest_run (fun f member => each f (List.mem_cons_of_mem _ member)) v.fuel n tail
      settles (by omega) v.left_lt_fuel
  obtain ⟨p, read, lower⟩ := (each e List.mem_cons_self).nested_run n first settlesFirst deep
  refine ⟨p, ps, ?_, lower,
    by simp [Phrase.lowerAll, lower, lowers, bind, Except.bind, pure, Except.pure]⟩
  unfold expression
  rw [bind_run read, bind_run (fuel_run v), bind_run later]
  cases es with
  | nil =>
    obtain rfl := lowerAll_eq_nil lowers
    rfl
  | cons =>
    cases ps with
    | nil => cases lowers
    | cons => rfl

theorem ParsesAssignment.expression {ls : List Lexeme} {e : Expr}
    (parses : ParsesAssignment ls e) : ParsesExpression ls e := by
  intro n s u reads settles deep
  obtain ⟨p, ps, read, lower, -⟩ :=
    expression_run (fun _ => ls) e [] (by simpa using parses) n reads settles deep
  exact ⟨p, read, lower⟩

/-- **A sequence** of more than one part. -/
theorem parsesExpression_sequence {parts : Expr → List Lexeme} {e : Expr} {es : List Expr}
    (many : es ≠ []) (each : ∀ f ∈ e :: es, ParsesAssignment (parts f) f) :
    ParsesExpression (withCommas ((e :: es).map parts)) (.sequence (e :: es)) := by
  intro n s u reads settles deep
  obtain ⟨p, ps, read, -, lowers⟩ := expression_run parts e es each n reads settles deep
  rw [if_neg many] at read
  exact ⟨_, read, by simp [Phrase.lower, lowers, bind, Except.bind, pure, Except.pure]⟩

/-! ## All levels -/

/-- **What lexemes of rank `k` are read as**, wherever their rank allows them. -/
structure Recovered (k : Nat) (ls : List Lexeme) (e : Expr) : Prop where
  most : k ≤ 15
  begins : Begins Token.startsExpression ls
  expression : ParsesExpression ls e
  assignment : 1 ≤ k → ParsesAssignment ls e
  binary : 2 ≤ k → ParsesBinary k ls e
  unary : 14 ≤ k → ParsesUnary k ls e
  operand : 15 ≤ k → ParsesOperand ls e
  beginsOperand : 15 ≤ k → Begins Token.startsOperandOf ls

namespace Recovered

variable {k : Nat} {ls : List Lexeme} {e : Expr}

theorem ofExpression (parses : ParsesExpression ls e) (begins : Begins Token.startsExpression ls) :
    Recovered 0 ls e where
  most := by decide
  begins := begins
  expression := parses
  assignment high := absurd high (by decide)
  binary high := absurd high (by decide)
  unary high := absurd high (by decide)
  operand high := absurd high (by decide)
  beginsOperand high := absurd high (by decide)

theorem ofAssignment (parses : ParsesAssignment ls e) (begins : Begins Token.startsExpression ls) :
    Recovered 1 ls e where
  most := by decide
  begins := begins
  expression := parses.expression
  assignment _ := parses
  binary high := absurd high (by decide)
  unary high := absurd high (by decide)
  operand high := absurd high (by decide)
  beginsOperand high := absurd high (by decide)

theorem ofBinary (parses : ParsesBinary k ls e) (begins : Begins Token.startsExpression ls)
    (least : 2 ≤ k) (most : k ≤ 13) : Recovered k ls e where
  most := by omega
  begins := begins
  expression := (parses.assignment begins least (by omega)).expression
  assignment _ := parses.assignment begins least (by omega)
  binary _ := parses
  unary high := absurd high (by omega)
  operand high := absurd high (by omega)
  beginsOperand high := absurd high (by omega)

theorem ofUnary (parses : ParsesUnary 14 ls e) (begins : Begins Token.startsExpression ls) :
    Recovered 14 ls e where
  most := by decide
  begins := begins
  expression := ((parses.binary begins).assignment begins (by decide) (by decide)).expression
  assignment _ := (parses.binary begins).assignment begins (by decide) (by decide)
  binary _ := parses.binary begins
  unary _ := parses
  operand high := absurd high (by decide)
  beginsOperand high := absurd high (by decide)

theorem ofOperand (parses : ParsesOperand ls e) (begins : Begins Token.startsOperandOf ls) :
    Recovered 15 ls e where
  most := by decide
  begins := begins.expression
  expression := (((parses.unary begins).binary begins.expression).assignment begins.expression
    (by decide) (by decide)).expression
  assignment _ := ((parses.unary begins).binary begins.expression).assignment begins.expression
    (by decide) (by decide)
  binary _ := (parses.unary begins).binary begins.expression
  unary _ := parses.unary begins
  operand _ := parses
  beginsOperand _ := begins

end Recovered

end MiniTemplate.Script
