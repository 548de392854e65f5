import MiniTemplate.Proofs.Script.Soundness

/-!
# Bodies of functions are passed over

Statements have no trees; that they skip nothing is all there is to say of them. Only the head of a
loop takes more: its target claims initialisers, which an expression was told to leave. With the
statements all the nested parsers tell what they have passed over, at every depth (`nested_tells`).
-/

namespace MiniTemplate.Script

namespace Parser

variable {r : Nested} (moves : r.Moves) (c : Context)
include moves

/-! ## Declarations -/

omit moves in
@[grind ←]
theorem moves_atResource (inLoop : Bool) : Moves (atResource c inLoop) := by
  unfold atResource
  grind

omit moves in
@[grind ←]
theorem moves_declared? (inLoop : Bool) : Moves (declared? c inLoop) := by
  unfold declared?
  grind

@[grind ←]
theorem moves_declarator (kind : Declared) : Moves (declarator r c kind) := by
  unfold declarator
  refine moves_token.bind fun first => ?_
  split
  · grind
  · grind

theorem moves_declarators (kind : Declared) (fuel : Nat) : Moves (declarators r c kind fuel) := by
  induction fuel with
  | zero => exact moves_failure
  | succ fuel ih =>
    rw [declarators]
    grind

@[grind ←]
theorem moves_declaredPatterns (kind : Declared) : Moves (declaredPatterns r c kind) := by
  unfold declaredPatterns
  grind [moves_declarators]

@[grind ←]
theorem moves_declaration (place : Place) (kind : Declared) :
    Moves (declaration r c place kind) := by
  unfold declaration
  grind

@[grind ←]
theorem moves_letStatement (place : Place) : Moves (letStatement r c place) := by
  unfold letStatement
  grind

/-! ## Imports and exports -/

omit moves in
@[grind ←]
theorem moves_moduleName : Moves moduleName := by
  unfold moduleName
  grind

omit moves in
@[grind ←]
theorem moves_offeredName : Moves offeredName := by
  unfold offeredName
  grind

omit moves in
@[grind ←]
theorem moves_importAttribute : Moves importAttribute := by
  unfold importAttribute
  grind

omit moves in
@[grind ←]
theorem moves_importEnd : Moves importEnd := by
  unfold importEnd
  grind

omit moves in
@[grind ←]
theorem moves_fromModule : Moves fromModule := by
  unfold fromModule
  grind

omit moves in
@[grind ←]
theorem moves_importedName : Moves (importedName c) := by
  unfold importedName
  grind

omit moves in
@[grind ←]
theorem moves_importedNames : Moves (importedNames c) := by
  unfold importedNames
  grind

omit moves in
@[grind ←]
theorem moves_atPhase : Moves atPhase := by
  unfold atPhase
  grind

omit moves in
@[grind ←]
theorem moves_importDeclaration : Moves (importDeclaration c) := by
  unfold importDeclaration
  refine (moves_expectWord _).bind fun _ => moves_token.bind fun first => ?_
  split
  · grind
  · refine moves_atPhase.bind fun phase => ?_
    grind

omit moves in
@[grind ←]
theorem moves_exportedName : Moves exportedName := by
  unfold exportedName
  grind

@[grind ←]
theorem moves_namedDefinition? (named : Bool) : Moves (namedDefinition? r c named) := by
  unfold namedDefinition?
  grind

@[grind ←]
theorem moves_exportedDeclaration : Moves (exportedDeclaration r c) := by
  unfold exportedDeclaration
  grind

@[grind ←]
theorem moves_exportDeclaration : Moves (exportDeclaration r c) := by
  unfold exportDeclaration
  grind

/-! ## Loops -/

@[grind ←]
theorem moves_optionalUpTo (close : String) : Moves (optionalUpTo r c close) := by
  unfold optionalUpTo
  grind

@[grind ←]
theorem moves_countingRest (awaits : Bool) : Moves (countingRest r c awaits) := by
  unfold countingRest
  grind

@[grind ←]
theorem moves_membersRest (awaits : Bool) : Moves (membersRest r c awaits) := by
  unfold membersRest
  grind

@[grind ←]
theorem moves_valuesRest : Moves (valuesRest r c) := by
  unfold valuesRest
  grind

omit moves in
@[grind ←]
theorem moves_loopDeclared? : Moves (loopDeclared? c) := by
  unfold loopDeclared?
  grind

/-! ## Statements -/

@[grind ←]
theorem moves_head : Moves (head r c) := by
  unfold head
  grind

theorem moves_caseStatements (fuel : Nat) : Moves (caseStatements r c fuel) := by
  induction fuel with
  | zero => exact moves_failure
  | succ fuel ih =>
    rw [caseStatements]
    grind

theorem moves_cases (fuel : Nat) : Moves (cases r c fuel) := by
  induction fuel with
  | zero => exact moves_failure
  | succ fuel ih =>
    rw [Parser.cases]
    grind [moves_caseStatements]

@[grind ←]
theorem moves_handlers : Moves (handlers r c) := by
  unfold handlers
  grind

omit moves in
@[grind ←]
theorem moves_jump : Moves (jump c) := by
  unfold jump
  grind

@[grind ←]
theorem moves_expressionStatement : Moves (expressionStatement r c) := by
  unfold expressionStatement
  grind

@[grind ←]
theorem moves_classStatement (place : Place) : Moves (classStatement r c place) := by
  unfold classStatement
  grind

@[grind ←]
theorem moves_functionStatement (place : Place) (isAsync : Bool) :
    Moves (functionStatement r c place isAsync) := by
  unfold functionStatement
  grind

end Parser

namespace Parser

variable {r : Nested} (tells : r.Tells) (c : Context)
include tells

theorem moves_loopHead (awaits : Bool) : Moves (loopHead r c awaits) := by
  have moves := tells.moves
  unfold loopHead
  refine (moves_atMark _).bind fun counts => ?_
  split
  · grind
  · refine moves_get.bind fun start => (moves_loopDeclared? c).bind fun declared => ?_
    split
    · grind
    · -- the target of a loop claims initialisers of the expression just read
      refine moves_of_leads fun s => .bind (tells_expression tells _) fun p ms v _ _ => ?_
      refine .looks (looks_atWord _) fun overValues => ?_
      split
      · exact .flawIf fun w _ => .claimTarget (by simp) fun w => (moves_valuesRest moves c).leads
      · refine .looks (looks_atWord _) fun overMembers => ?_
        split
        · exact .claimTarget (by simp) fun w => (moves_membersRest moves c awaits).leads
        · exact (moves_countingRest moves c awaits).leads

theorem moves_wordStatement (place : Place) (w : String) : Moves (wordStatement r c place w) := by
  have moves := tells.moves
  unfold wordStatement
  split
  all_goals grind [moves_loopHead, moves_cases]

/-- **A statement skips nothing.** -/
theorem moves_statement (place : Place) : Moves (statement r place c) := by
  have moves := tells.moves
  unfold statement
  refine moves_token.bind fun first => ?_
  split
  all_goals grind [moves_wordStatement]

end Parser

/-! ## All depths -/

/-- **All nested parsers tell what they have passed over.** -/
theorem nested_tells (depth : Nat) : (nested depth).Tells := by
  induction depth with
  | zero =>
    exact {
      moves := {
        assignment := fun _ => Parser.moves_failure
        binary := fun _ _ => Parser.moves_failure
        unary := fun _ => Parser.moves_failure
        operand := fun _ => Parser.moves_failure
        member := fun _ => Parser.moves_failure
        binding := fun _ => Parser.moves_failure
        statement := fun _ _ => Parser.moves_failure }
      assignment := fun _ => Parser.foreign_failure.tells _
      binary := fun _ _ => Parser.foreign_failure.tells _
      stops := by rintro _ _ _ _ _ ⟨⟩
      unary := fun _ => Parser.foreign_failure.tells _ }
  | succ depth tells =>
    exact {
      moves := {
        assignment := fun c => (Parser.tells_assignment tells c).moves
        binary := fun bound c => (Parser.tells_binary tells c bound).moves
        unary := fun c => (Parser.tells_unary tells c).moves
        operand := fun c => (Parser.tells_operand tells c).moves
        member := Parser.moves_member tells
        binding := Parser.moves_binding tells.moves
        statement := fun place c => Parser.moves_statement tells c place }
      assignment := Parser.tells_assignment tells
      binary := fun bound c => Parser.tells_binary tells c bound
      stops := fun _ c _ _ _ => Parser.stops_binary c
      unary := Parser.tells_unary tells }

end MiniTemplate.Script
