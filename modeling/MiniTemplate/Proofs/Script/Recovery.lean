import MiniTemplate.Proofs.Script.Printed

/-!
# Printed expressions are parsed back

Every well-formed tree is recovered from its lexemes, by induction over the tree: each
constructor is a rule of the grammar, and the parentheses that its place asks for make an
operand of any part. Its texts are streams over these lexemes, so **parsing a printed form
of a tree gives the tree**.
-/

namespace MiniTemplate.Script

/-! ## Valid lexemes -/

/-- Whether all lexemes of a list are of the language. -/
def AllValid (ls : List Lexeme) : Prop := ∀ l ∈ ls, l.valid

@[simp] theorem allValid_nil : AllValid [] := by simp [AllValid]

@[simp] theorem allValid_cons {l : Lexeme} {ls : List Lexeme} :
    AllValid (l :: ls) ↔ l.valid ∧ AllValid ls := by
  simp [AllValid]

@[simp] theorem allValid_append {ls ms : List Lexeme} :
    AllValid (ls ++ ms) ↔ AllValid ls ∧ AllValid ms := by
  simp only [AllValid, List.mem_append]
  exact ⟨fun all => ⟨fun l member => all l (.inl member), fun l member => all l (.inr member)⟩,
    fun ⟨first, second⟩ l member => member.elim (first l) (second l)⟩

@[simp] theorem valid_mark {m : String} : (Lexeme.mark m).valid ↔ m ∈ punctuators := by
  simp [Lexeme.valid]

theorem allValid_enclosed {fits : Bool} {ls : List Lexeme} (valid : AllValid ls) :
    AllValid (enclosed fits ls) := by
  have known : "(" ∈ punctuators ∧ ")" ∈ punctuators := by decide
  unfold enclosed
  split
  · exact valid
  · simp [valid, known]

theorem allValid_withCommas {rows : List (List Lexeme)} (valid : ∀ ls ∈ rows, AllValid ls) :
    AllValid (withCommas rows) := by
  have known : "," ∈ punctuators := by decide
  cases rows with
  | nil => simp [withCommas]
  | cons ls rows =>
    rw [withCommas_cons, allValid_append]
    refine ⟨valid ls List.mem_cons_self, fun l member => ?_⟩
    obtain ⟨ms, row, inside⟩ := List.mem_flatMap.1 member
    rcases List.mem_cons.1 inside with rfl | inside
    · simpa using known
    · exact valid ms (List.mem_cons_of_mem _ row) l inside

namespace Expr

theorem allValid_part {e : Expr} (valid : AllValid e.lexemes) : AllValid e.part :=
  allValid_enclosed valid

/-- A spread is valid where what it spreads is. -/
theorem allValid_element {e : Expr} (valid : AllValid e.unspread.lexemes) : AllValid e.part := by
  have known : "..." ∈ punctuators := by decide
  cases e with
  | spread argument =>
    refine allValid_part ?_
    rw [lexemes]
    simp only [allValid_cons, valid_mark]
    exact ⟨known, allValid_enclosed valid⟩
  | _ => exact allValid_part valid

theorem valid_word {name : String} (identifier : isIdentifier name) :
    (Lexeme.word name).valid := by
  simp only [isIdentifier, Bool.and_eq_true] at identifier
  exact identifier.1

theorem valid_number {x : Binary64} (whole : IsWhole x) : (Lexeme.number x.floor).valid := by
  obtain ⟨n, small, rfl⟩ := whole
  rw [Binary64.floor_ofNat small]
  exact decide_eq_true small

theorem valid_operator {operator : String}
    (known : operator ∈ unaryOperators ++ (arithmeticOperators ++ logicalOperators)) :
    (operatorLexeme operator).valid := by
  have all : ∀ operator ∈ unaryOperators ++ (arithmeticOperators ++ logicalOperators),
      (operatorLexeme operator).valid = true := by decide +kernel
  exact all operator known

theorem valid_literal {value : Literal} (wellFormed : value.WellFormed) : value.lexeme.valid := by
  cases wellFormed with
  | bool value => cases value <;> decide
  | null => decide
  | string => rfl
  | number whole => exact valid_number whole

theorem IsKey.allValid {key : Expr} (isKey : key.IsKey) : AllValid key.lexemes := by
  cases isKey with
  | identifier identifier => simp [lexemes, valid_word identifier]
  | string value => simp [lexemes, Literal.lexeme, Lexeme.valid]
  | number whole => simp [lexemes, Literal.lexeme, valid_number whole]

theorem allValid_substituted {es : List Expr} (each : ∀ e ∈ es, AllValid e.lexemes)
    (qs : List String) : AllValid (substituted es qs) := by
  induction es generalizing qs with
  | nil => simp [substituted]
  | cons e es ih =>
    cases qs with
    | nil => simp [substituted]
    | cons q qs =>
      have later := ih (fun f member => each f (List.mem_cons_of_mem _ member)) qs
      simp [substituted, Lexeme.valid, each e List.mem_cons_self, later]

/-- The lexemes of a well-formed tree are those of the language. -/
theorem WellFormed.allValid {e : Expr} (wellFormed : e.WellFormed) : AllValid e.lexemes := by
  induction wellFormed with
  | identifier identifier => simp [lexemes, valid_word identifier]
  | literal wellFormed => simp [lexemes, valid_literal wellFormed]
  | @template quasis expressions length each ih =>
    simp [lexemes, Lexeme.valid, allValid_substituted ih]
  | @array elements each ih =>
    have rows : ∀ ls ∈ elements.map (elementParts part), AllValid ls := by
      intro ls member
      obtain ⟨element, inside, rfl⟩ := List.mem_map.1 member
      cases element with
      | none => exact allValid_nil
      | some e => exact allValid_element (ih e inside)
    have comma : AllValid (if endsInHole elements then [.mark ","] else []) := by
      split <;> simp +decide
    simp +decide [lexemes, elementLexemes_eq, allValid_withCommas rows, comma]
  | @object properties keys computed values spreads ihComputed ihValues ihSpreads =>
    have rows : ∀ ls ∈ properties.map propertyPart, AllValid ls := by
      intro ls member
      obtain ⟨property, inside, rfl⟩ := List.mem_map.1 member
      cases property with
      | pair key value isComputed =>
        have ofValue := allValid_part (ihValues key value isComputed inside)
        cases isComputed with
        | false => simp +decide [propertyPart, ofValue, (keys key value inside).allValid]
        | true =>
          simp +decide [propertyPart, ofValue, allValid_part (ihComputed key value inside)]
      | spread e => simp +decide [propertyPart, allValid_part (ihSpreads e inside)]
    simp +decide [lexemes, propertyLexemes_eq, allValid_withCommas rows]
  | @name base name optional _ identifier ih =>
    have link : AllValid [.mark (if optional then "?." else ".")] := by
      cases optional <;> simp +decide
    simp only [allValid_cons, allValid_nil, and_true] at link
    simp [lexemes, allValid_enclosed ih, link, valid_word identifier]
  | @index base property optional _ _ ihBase ihIndex =>
    have link : AllValid (optionalMark optional) := by
      cases optional <;> simp +decide [optionalMark]
    simp +decide [lexemes, allValid_enclosed ihBase, link, ihIndex]
  | @call callee arguments optional _ each ihBase ihEach =>
    have rows : ∀ ls ∈ arguments.map part, AllValid ls := by
      intro ls member
      obtain ⟨e, inside, rfl⟩ := List.mem_map.1 member
      exact allValid_element (ihEach e inside)
    have link : AllValid (optionalMark optional) := by
      cases optional <;> simp +decide [optionalMark]
    simp +decide [lexemes, allValid_enclosed ihBase, link, partLexemes_eq, allValid_withCommas rows]
  | unary known _ ih =>
    simp [lexemes, valid_operator (List.mem_append_left _ known), allValid_enclosed ih]
  | binary known _ _ ihLeft ihRight =>
    simp [lexemes, valid_operator (List.mem_append_right _ (List.mem_append_left _ known)),
      allValid_enclosed ihLeft, allValid_enclosed ihRight]
  | logical known _ _ ihLeft ihRight =>
    simp [lexemes, valid_operator (List.mem_append_right _ (List.mem_append_right _ known)),
      allValid_enclosed ihLeft, allValid_enclosed ihRight]
  | conditional _ _ _ ihTest ihConsequent ihAlternate =>
    simp +decide [lexemes, allValid_enclosed ihTest, allValid_enclosed ihConsequent,
      allValid_enclosed ihAlternate]
  | @sequence expressions many each ih =>
    have rows : ∀ ls ∈ expressions.map part, AllValid ls := by
      intro ls member
      obtain ⟨e, inside, rfl⟩ := List.mem_map.1 member
      exact allValid_part (ih e inside)
    simp [lexemes, partLexemes_eq, allValid_withCommas rows]

end Expr

/-! ## Trees from lexemes -/

/-- Parentheses make an operand of everything. -/
theorem Recovered.parens {k : Nat} {ls : List Lexeme} {e : Expr} (recovered : Recovered k ls e) :
    Recovered 15 (.mark "(" :: (ls ++ [.mark ")"])) e := by
  refine .ofOperand (parsesBase_parens recovered.expression).operand ?_
  -- No parameters start here: an expression follows the parenthesis.
  obtain ⟨l, rest, rfl, plain, first, -⟩ := recovered.begins
  exact ⟨_, _, rfl, rfl, rfl, fun _ => ⟨l, rest ++ [.mark ")"], rfl, plain, first⟩⟩

/-- Parentheses make an operand of what does not fit its place. -/
theorem Recovered.enclosed {k : Nat} {ls : List Lexeme} {e : Expr} (recovered : Recovered k ls e)
    (fits : Nat → Bool) (operand : fits 15) :
    ∃ j, fits j ∧ Recovered j (enclosed (fits k) ls) e := by
  cases fit : fits k with
  | true => exact ⟨k, fit, recovered⟩
  | false => exact ⟨15, operand, recovered.parens⟩

namespace Expr

/-- A tree is recovered from its lexemes. -/
def IsRecovered (e : Expr) : Prop := Recovered e.rank e.lexemes e

namespace IsRecovered

variable {e : Expr}

theorem base (recovered : e.IsRecovered) :
    ParsesOperand (enclosed (15 ≤ e.rank) e.lexemes) e ∧
      Begins Token.startsOperandOf (enclosed (15 ≤ e.rank) e.lexemes) := by
  obtain ⟨j, high, operand⟩ := Recovered.enclosed recovered (fun k => decide (15 ≤ k)) rfl
  simp only [decide_eq_true_eq] at high
  exact ⟨operand.operand high, operand.beginsOperand high⟩

theorem part (recovered : e.IsRecovered) :
    ParsesAssignment e.part e ∧ Begins Token.startsExpression e.part := by
  obtain ⟨j, high, operand⟩ := Recovered.enclosed recovered (fun k => decide (1 ≤ k)) rfl
  simp only [decide_eq_true_eq] at high
  exact ⟨operand.assignment high, operand.begins⟩

theorem element (recovered : e.unspread.IsRecovered) : ParsesElement e.part e := by
  cases e with
  | spread argument => exact .spread recovered.part.1
  | _ => exact .plain recovered.part.2 recovered.part.1

end IsRecovered

theorem isName_of_isIdentifier {name : String} (identifier : isIdentifier name) :
    isName name ∧ name ∉ ["async", "await", "yield"] := by
  simp only [isIdentifier, Bool.and_eq_true, Bool.not_eq_true', List.contains_eq_mem,
    decide_eq_false_iff_not] at identifier
  have reserved : ∀ word ∈ reservedWords ++ ["async", "await", "yield"], word ∈ keywords := by
    decide
  have none : name ∉ reservedWords ++ ["async", "await", "yield"] := fun member =>
    identifier.2 (reserved name member)
  simp only [List.mem_append, not_or] at none
  exact ⟨by simpa [isName] using none.1, none.2⟩

theorem startsOperandOf_word {name : String} (identifier : isIdentifier name) :
    (Token.word name false).startsOperandOf := by
  simp only [isIdentifier, Bool.and_eq_true, Bool.not_eq_true', List.contains_eq_mem,
    decide_eq_false_iff_not] at identifier
  have words : ∀ word ∈ ["async", "await", "yield", "typeof", "void", "delete"],
      word ∈ keywords := by decide
  simp only [Token.startsOperandOf, Bool.not_eq_true', List.contains_eq_mem,
    decide_eq_false_iff_not]
  exact fun member => identifier.2 (words name member)

theorem begins_cons {l : Lexeme} (plain : l.resumes = false) (starts : l.token.startsOperandOf)
    (other : l ≠ .mark "(") (rest : List Lexeme) : Begins Token.startsOperandOf (l :: rest) :=
  ⟨l, rest, rfl, plain, starts, fun same => absurd same other⟩

theorem isRecovered_identifier {name : String} (identifier : isIdentifier name) :
    (Expr.identifier name).IsRecovered := by
  obtain ⟨isName, plain⟩ := isName_of_isIdentifier identifier
  exact .ofOperand (parsesBase_name isName plain).operand
    (begins_cons (l := .word name) rfl (startsOperandOf_word identifier) (by simp) [])

theorem isRecovered_literal {value : Literal} (wellFormed : value.WellFormed) :
    (Expr.literal value).IsRecovered := by
  unfold IsRecovered
  rw [lexemes]
  cases wellFormed with
  | bool value =>
    cases value with
    | false =>
      exact .ofOperand (parsesBase_keyword (by decide)).operand
        (begins_cons rfl rfl (by decide) [])
    | true =>
      exact .ofOperand (parsesBase_keyword (by decide)).operand
        (begins_cons rfl rfl (by decide) [])
  | null =>
    exact .ofOperand (parsesBase_keyword (by decide)).operand (begins_cons rfl rfl (by decide) [])
  | string value =>
    exact .ofOperand (parsesBase_string value).operand
      (begins_cons rfl rfl (by simp [Literal.lexeme]) [])
  | number whole =>
    obtain ⟨n, small, rfl⟩ := whole
    rw [Literal.lexeme, Binary64.floor_ofNat small]
    exact .ofOperand (parsesBase_number n).operand (begins_cons rfl rfl (by simp) [])

theorem parsesKey_of_isKey {key : Expr} (isKey : key.IsKey) : ParsesKey key.lexemes key false := by
  cases isKey with
  | identifier => exact .name _
  | string value => exact .string value
  | number whole =>
    obtain ⟨n, small, rfl⟩ := whole
    rw [lexemes, Literal.lexeme, Binary64.floor_ofNat small]
    exact .number n

/-- The operands of an operator are recovered, in parentheses where it asks for them. -/
theorem isRecovered_operation {operator : String} {left right : Expr}
    (known : (operator, precedence operator) ∈ binaryOperators) (ofLeft : left.IsRecovered)
    (ofRight : right.IsRecovered) :
    Recovered (precedence operator + 1)
      (enclosed (leftFits operator (precedence operator) left.rank) left.lexemes ++
        operatorLexeme operator ::
          enclosed (rightFits operator (precedence operator) right.rank) right.lexemes)
      (.joined operator left right) := by
  obtain ⟨least, most, -⟩ := precedence_facts known
  obtain ⟨i, fitsLeft, recoveredLeft⟩ :=
    Recovered.enclosed ofLeft (leftFits operator (precedence operator)) (by
      unfold leftFits
      split_ifs
      · rfl
      · rfl
      · exact decide_eq_true (by omega))
  obtain ⟨j, fitsRight, recoveredRight⟩ :=
    Recovered.enclosed ofRight (rightFits operator (precedence operator)) (by
      unfold rightFits
      split_ifs
      · rfl
      · rfl
      · exact decide_eq_true (by omega))
  have leftRank := (rank_of_leftFits known fitsLeft).1
  have rightRank := (rank_of_rightFits known fitsRight).1
  unfold leastRank at rightRank
  exact .ofBinary
    (.operation known (recoveredLeft.binary (by omega)) (recoveredRight.binary (by omega)) fitsLeft
      fitsRight recoveredRight.most)
    (recoveredLeft.begins.append _) (by omega) (by omega)

theorem known_arithmetic : ∀ operator ∈ arithmeticOperators,
    (operator, precedence operator) ∈ binaryOperators ∧ isLogical operator = false := by
  decide

theorem known_logical : ∀ operator ∈ logicalOperators,
    (operator, precedence operator) ∈ binaryOperators ∧ isLogical operator := by
  decide

theorem unary_begins : ∀ operator ∈ unaryOperators, (operatorLexeme operator).resumes = false ∧
    (operatorLexeme operator).token.startsExpression ∧ operatorLexeme operator ≠ .mark "(" := by
  decide

/-- **Every well-formed tree is recovered from its lexemes.** -/
theorem WellFormed.isRecovered {e : Expr} (wellFormed : e.WellFormed) : e.IsRecovered := by
  induction wellFormed with
  | identifier identifier => exact isRecovered_identifier identifier
  | literal wellFormed => exact isRecovered_literal wellFormed
  | @template quasis expressions length _ ih =>
    obtain ⟨q, qs, rfl⟩ : ∃ q qs, quasis = q :: qs :=
      List.exists_cons_of_length_pos (by omega)
    unfold IsRecovered
    rw [lexemes, substituted_eq]
    have each := fun e member => (ih e member).expression
    exact .ofOperand (parsesBase_template each (by simpa using length)).operand
      (begins_cons rfl rfl (by simp) _)
  | @array elements each ih =>
    unfold IsRecovered
    rw [lexemes, elementLexemes_eq]
    exact .ofOperand (parsesBase_array fun e member => IsRecovered.element (ih e member)).operand
      (begins_cons rfl rfl (by decide) _)
  | @object properties keys computed values spreads ihComputed ihValues ihSpreads =>
    have entries : ∀ property ∈ properties, ParsesEntry (propertyPart property) property := by
      intro property member
      cases property with
      | pair key value isComputed =>
        have ofValue := (ihValues key value isComputed member).part.1
        cases isComputed with
        | false => exact .pair (parsesKey_of_isKey (keys key value member)) ofValue
        | true => exact .pair (.computed (ihComputed key value member).part.1) ofValue
      | spread e => exact .spread (ihSpreads e member).part.1
    unfold IsRecovered
    rw [lexemes, propertyLexemes_eq]
    exact .ofOperand (parsesBase_object entries).operand (begins_cons rfl rfl (by decide) _)
  | @name base name optional _ identifier ih =>
    unfold IsRecovered
    rw [lexemes, lexemes]
    exact .ofOperand (ih.base.1.member name optional) (ih.base.2.append _)
  | @index base property optional _ _ ihBase ihIndex =>
    unfold IsRecovered
    rw [lexemes]
    exact .ofOperand (ihBase.base.1.index ihIndex.expression optional) (ihBase.base.2.append _)
  | @call callee arguments optional _ each ihBase ihEach =>
    unfold IsRecovered
    rw [lexemes, partLexemes_eq]
    exact .ofOperand
      (ihBase.base.1.call (fun e member => IsRecovered.element (ihEach e member)) optional)
      (ihBase.base.2.append _)
  | @unary operator argument known _ ih =>
    obtain ⟨plain, starts, other⟩ := unary_begins operator known
    obtain ⟨j, high, operand⟩ := Recovered.enclosed ih (fun k => decide (14 ≤ k)) rfl
    simp only [decide_eq_true_eq] at high
    unfold IsRecovered
    rw [lexemes]
    exact .ofUnary (.operation (operand.unary high) known)
      ⟨_, _, rfl, plain, starts, fun same => absurd same other⟩
  | @binary operator left right known _ _ ihLeft ihRight =>
    obtain ⟨listed, kind⟩ := known_arithmetic operator known
    have recovered := isRecovered_operation listed ihLeft ihRight
    rw [Expr.joined, if_neg (by simp [kind])] at recovered
    unfold IsRecovered
    rwa [lexemes]
  | @logical operator left right known _ _ ihLeft ihRight =>
    obtain ⟨listed, kind⟩ := known_logical operator known
    have recovered := isRecovered_operation listed ihLeft ihRight
    rw [Expr.joined, if_pos kind] at recovered
    unfold IsRecovered
    rwa [lexemes]
  | @conditional test consequent alternate _ _ _ ihTest ihConsequent ihAlternate =>
    obtain ⟨j, high, operand⟩ := Recovered.enclosed ihTest (fun k => decide (2 ≤ k)) rfl
    simp only [decide_eq_true_eq] at high
    unfold IsRecovered
    rw [lexemes]
    exact .ofAssignment
      (parsesAssignment_conditional (operand.binary high) operand.begins high operand.most
        ihConsequent.part.1 ihAlternate.part.1)
      (operand.begins.append _)
  | @sequence expressions many each ih =>
    obtain ⟨e, f, es, rfl⟩ : ∃ e f es, expressions = e :: f :: es := by
      match expressions, many with
      | e :: f :: es, _ => exact ⟨e, f, es, rfl⟩
    unfold IsRecovered
    rw [lexemes, partLexemes_eq]
    refine .ofExpression
      (parsesExpression_sequence (by simp) fun g member => (ih g member).part.1) ?_
    rw [List.map_cons, withCommas_cons]
    exact (ih e List.mem_cons_self).part.2.append _

/-! ## Trees from texts -/

/-- **Parsing recovers every well-formed tree** from its printed forms, and
`Expr.printed` is one of them. -/
theorem parse_of_prints (e : Expr) (wellFormed : e.WellFormed) :
    e.Prints e.printed ∧ ∀ text, e.Prints text → parse text = .ok e := by
  refine ⟨?_, fun text prints => ?_⟩
  · rw [Prints, printed, String.toList_ofList]
    exact spells_spelled wellFormed.allValid
  · obtain ⟨t, u, start, reads, short, finish, flawed, unset⟩ :=
      exists_reads_of_spells prints wellFormed.allValid
        (s := { token := .finish, newline := false, rest := text.toList }) rfl
    obtain ⟨p, read, lower⟩ := wellFormed.isRecovered.expression (depthBound text.toList) reads
      (by rw [finish]; rfl) (by rw [depthBound]; omega)
    have whole : phrase? text.toList = some p := by
      simp [phrase?, Stream.start?, start, read, flawed, unset]
    rw [parse, whole]
    simp [lower, Except.mapError]

/-- A tree whose printed form needs each kind of parentheses, blanks and commas. -/
def entangled : Expr :=
  .logical "??"
    (.logical "||" (.identifier "a")
      (.binary "**" (.unary "-" (.identifier "b"))
        (.unary "-" (.member (.literal (.number (.ofNat 5))) (.identifier "c") false false))))
    (.call
      (.member (.template ["d", ""] [.sequence [.identifier "e", .literal .null]])
        (.identifier "f") false true)
      [.spread (.array [some (.literal (.string "g")), none])] false)

theorem wellFormed_entangled : entangled.WellFormed := by
  have named (name : String) (identifier : isIdentifier name) :
      (Expr.identifier name).WellFormed := .identifier identifier
  refine .logical (by decide) (.logical (by decide) (named "a" rfl) ?_) ?_
  · exact .binary (by decide) (.unary (by decide) (named "b" rfl))
      (.unary (by decide) (.name (.literal (.number ⟨5, by decide, rfl⟩)) rfl))
  · refine .call (.name (.template rfl ?_) rfl) ?_
    · simp only [List.mem_singleton, forall_eq]
      refine .sequence (by decide) ?_
      simp only [List.mem_cons, List.not_mem_nil, or_false, forall_eq_or_imp, forall_eq]
      exact ⟨named "e" rfl, .literal .null⟩
    · simp only [List.mem_singleton, forall_eq]
      refine .array ?_
      simp only [List.mem_cons, Option.some.injEq, reduceCtorEq, List.not_mem_nil, or_false,
        forall_eq]
      exact .literal (.string "g")

theorem parse_entangled :
    entangled.printed = "(a||(-b)**-5 .c)??`d$\x7be,null\x7d`?.f(...[\"g\",,])" ∧
      parse "(a||(-b)**-5 .c)??`d$\x7be,null\x7d`?.f(...[\"g\",,])" = .ok entangled := by
  have text : entangled.printed = "(a||(-b)**-5 .c)??`d$\x7be,null\x7d`?.f(...[\"g\",,])" := by
    decide +kernel
  obtain ⟨prints, parses⟩ := parse_of_prints entangled wellFormed_entangled
  rw [← text]
  exact ⟨rfl, parses _ prints⟩

end Expr

end MiniTemplate.Script
