import MiniTemplate.Proofs.Script.Leading

/-!
# Expressions are read by the grammar

One lemma for each rule of expressions says that it tells what it has passed over, if the nested
parsers do (`Nested.Tells`). The last of them are `tells_expression` and `tells_assignment`. An
operator joins what stands before it as a left operand of its own rank; that is so because the
operand before it was read as far as its operators go on (`Stops`).
-/

namespace MiniTemplate.Script

/-- No operator at hand goes on with operands that bind tighter than a bound. -/
def Stops (bound : Nat) (c : Context) (t : Token) : Prop :=
  ∀ operator precedence, binaryOperator? c t = some (operator, precedence) →
    continues bound operator precedence = false

/-- **The nested parsers tell what they have passed over.** -/
structure Nested.Tells (r : Nested) : Prop where
  moves : r.Moves
  assignment : ∀ c, Parser.TellsPhrase (r.assignment c) .assignment
  binary : ∀ bound c, Parser.TellsPhrase (r.binary bound c) (.binary bound)
  stops : ∀ bound c s p t, r.binary bound c s = some (p, t) → Stops bound c t.token
  unary : ∀ c, Parser.TellsPhrase (r.unary c) .unary

namespace Parser

variable {r : Nested} (tells : r.Tells) (c : Context)
include tells

theorem tells_expressionRest (fuel : Nat) : Tells (expressionRest r c fuel)
    (fun ls ps => ∃ rows, ls = rows.flatMap (.mark "," :: ·) ∧
      List.Forall₂ (fun row p => p.DenotedBy .assignment row) rows ps)
    Phrase.initialisersAll := by
  induction fuel with
  | zero =>
    rintro s a t ⟨⟩
  | succ fuel ih =>
    refine tells_of_leads fun s => ?_
    rw [expressionRest]
    refine .skipMark (fun _ v => ?_) fun _ => .pure ⟨⟨[], rfl, .nil⟩, Nat.le_refl 0⟩
    refine .bind (tells.assignment c) fun p ms v _ first => ?_
    refine .bind ih fun ps _ v _ later => ?_
    obtain ⟨rows, same, others⟩ := later
    refine .pure ⟨⟨ms :: rows, ?_, .cons first others⟩, ?_⟩
    · simp [same]
    · simp [Phrase.initialisersAll]

theorem tells_expression : TellsPhrase (expression r c) .expression := by
  refine tells_of_leads fun s => ?_
  unfold expression
  refine .bind (tells.assignment _) fun p ms v _ first => .look (fuel_run v) ?_
  refine .bind (tells_expressionRest tells _ _) fun ps _ v _ later => ?_
  obtain ⟨rows, same, others⟩ := later
  cases ps with
  | nil =>
    cases others
    subst same
    refine .pure ⟨?_, by simp⟩
    simpa using first.expression
  | cons q ps =>
    refine .pure ⟨?_, ?_⟩
    · rw [same]
      exact first.sequence (List.cons_ne_nil q ps) others
    · simp [Phrase.initialisers, Phrase.initialisersAll]

/-! ## Templates -/

omit tells in
theorem eq_of_resumeTemplate {u v : Stream} {a : Unit} (run : resumeTemplate u = some (a, v)) :
    u.token = .mark "\x7d" ∧ Token.template? u.rest = some (v.token, v.rest) ∧
      v.unset = u.unset := by
  unfold resumeTemplate at run
  rw [bind_run (get_run u)] at run
  split at run
  · rename_i brace
    cases read : Token.template? u.rest with
    | none => simp [read, failure, StateT.failure] at run
    | some found =>
      rw [read] at run
      cases run
      exact ⟨beq_iff_eq.1 brace, rfl, rfl⟩
  · cases run

/-- Template text at hand, and what follows it. -/
theorem exists_of_templateParts (tagged : Bool) (fuel : Nat) {u t : Stream} {quasis : List String}
    {parts : List Phrase} (run : templateParts r c tagged fuel u = some ((quasis, parts), t)) :
    ∃ text last v ls rest, u.token = .template text last ∧ v.Stands u.rest ∧ u.unset ≤ v.unset ∧
      Passed v ls (Phrase.initialisersAll parts) t ∧ quasis = text.getD "" :: rest ∧
      ∀ es, List.Forall₂ Phrase.Bears parts es →
        Substitutions (Denotes .expression) last ls rest es := by
  induction fuel generalizing u t quasis parts with
  | zero => cases run
  | succ fuel ih =>
    rw [templateParts, bind_run (token_run u)] at run
    cases token : u.token with
    | template text last =>
      rw [token] at run
      obtain ⟨_, noted, flawed, run⟩ := exists_of_bind run
      obtain ⟨-, sameRest, sameUnset⟩ := eq_of_flawIf flawed
      obtain ⟨_, v, step, run⟩ := exists_of_bind run
      have next := eq_of_advance step
      have stands : v.Stands u.rest := sameRest ▸ Stream.stands_of_next? next
      have unset : u.unset ≤ v.unset :=
        Nat.le_of_eq ((Stream.unset_of_next? next).trans sameUnset).symm
      cases last with
      | true =>
        cases run
        refine ⟨text, true, _, [], [], rfl, stands, unset, .refl _, rfl, ?_⟩
        rintro es ⟨⟩
        exact .none
      | false =>
        obtain ⟨p, w, inner, run⟩ := exists_of_bind run
        obtain ⟨ls, passed, denoted⟩ := tells_expression tells _ v p w inner
        obtain ⟨_, w', resumed, run⟩ := exists_of_bind run
        obtain ⟨⟨others, more⟩, _, later, ⟨⟩⟩ := exists_of_bind run
        -- The text at hand is not among the symbols passed: its symbol depends on how it was come by,
        -- which is known here for the text after the substitution.
        obtain ⟨text', last', v', ms, rest, token', stands', unset', passed', rfl, read⟩ := ih later
        refine ⟨text, false, v, ls ++ .resumed text' last' :: ms, text'.getD "" :: rest, rfl, stands,
          unset, ?_, rfl, ?_⟩
        · obtain ⟨brace, template, sameUnset⟩ := eq_of_resumeTemplate resumed
          rw [token'] at template
          have between := Passed.resumed brace template stands' (sameUnset ▸ unset')
          simpa [Phrase.initialisersAll] using passed.trans (between.trans passed')
        · rintro _ (_ | ⟨bears, others⟩)
          exact .more (denoted _ bears) (read _ others)
    | _ =>
      rw [token] at run
      cases run

theorem tells_template (tagged : Bool) : TellsPhrase (template r c tagged) .operand := by
  intro s p t run
  unfold template at run
  rw [bind_run (fuel_run s)] at run
  obtain ⟨⟨quasis, parts⟩, u, run, ⟨⟩⟩ := exists_of_bind run
  obtain ⟨text, last, v, ls, rest, token, stands, unset, passed, rfl, read⟩ :=
    exists_of_templateParts tells c tagged _ run
  refine ⟨.plain (.template text last) :: ls, ?_, Phrase.denotedBy_template read⟩
  have stepped := Passed.token stands unset
  rw [token] at stepped
  simpa [Phrase.initialisers] using stepped.trans passed

/-! ## Arrays, objects and arguments -/

theorem tells_item : Tells (item r c) (fun ls i => i.DenotedBy ls)
    (fun i => Phrase.initialisersItems [i]) := by
  refine tells_of_leads fun s => ?_
  unfold item
  refine .look (atMark_run _ s) ?_
  split
  · refine .pure ⟨?_, Nat.le_refl 0⟩
    rintro e ⟨⟩
    exact .hole
  · refine .skipMark (fun _ v => ?_) fun _ => ?_
    · refine .bind (tells.assignment c) fun p ms v _ first => .pure ⟨?_, ?_⟩
      · rintro e ⟨⟩
        rename_i bears
        exact .spread (first _ bears)
      · simp [Phrase.initialisersItems]
    · refine .bind (tells.assignment c) fun p ms v _ first => .pure ⟨?_, ?_⟩
      · rintro e ⟨⟩
        rename_i bears
        exact .plain (first _ bears)
      · simp [Phrase.initialisersItems]

omit tells in
/-- A hole is an item before a comma. -/
theorem token_of_hole {s t : Stream} (run : item r c s = some (.hole, t)) :
    t.token = .mark "," := by
  unfold item at run
  rw [bind_run (atMark_run _ s)] at run
  split at run
  · rename_i comma
    cases run
    exact beq_iff_eq.1 comma
  · obtain ⟨dots, u, -, run⟩ := exists_of_bind run
    cases dots with
    | true =>
      obtain ⟨p, v, -, ⟨⟩⟩ := exists_of_bind run
    | false =>
      obtain ⟨p, v, -, ⟨⟩⟩ := exists_of_bind run

theorem tells_array : TellsPhrase (array r c) .operand := by
  refine tells_of_leads fun s => ?_
  unfold array
  refine .expectMark fun v => ?_
  have items := (tells_item tells c.bracketed).list (by decide : "]" ≠ ",") (· = .hole)
    (by rintro s _ t run rfl; exact token_of_hole _ run)
  refine .bind items fun found ms w _ read => .pure ⟨?_, ?_⟩
  · simpa using Phrase.denotedBy_array found.2 read
  · simp [Phrase.initialisers, Phrase.initialisersItems_eq found.1]

theorem tells_argument : Tells (argument r c) (fun ls a => a.DenotedBy ls)
    (fun a => Phrase.initialisersArguments [a]) := by
  refine tells_of_leads fun s => ?_
  unfold argument
  refine .skipMark (fun _ v => ?_) fun _ => ?_
  · refine .bind (tells.assignment c) fun p ms v _ first => .pure ⟨?_, ?_⟩
    · rintro e ⟨⟩
      rename_i bears
      exact .spread (first _ bears)
    · simp [Phrase.initialisersArguments]
  · refine .bind (tells.assignment c) fun p ms v _ first => .pure ⟨?_, ?_⟩
    · rintro e ⟨⟩
      rename_i bears
      exact .plain (first _ bears)
    · simp [Phrase.initialisersArguments]

theorem tells_arguments : Tells (arguments r c)
    (fun ls as => ∃ ms, ls = .mark "(" :: ms ∧
      Separated ")" (fun ls a => a.DenotedBy ls) (fun _ => False) ms as)
    Phrase.initialisersArguments := by
  refine tells_of_leads fun s => ?_
  unfold arguments
  refine .expectMark fun v => ?_
  have items := (tells_argument tells c.enclosed).list (by decide : ")" ≠ ",") (fun _ => False)
    (by rintro s a t run ⟨⟩)
  refine .bind items fun found ms w _ read => .pure ⟨⟨ms, by simp, read⟩, ?_⟩
  simp [Phrase.initialisersArguments_eq found.1]

theorem tells_key : Tells (key r c) (fun ls k => k.DenotedBy ls) Phrase.initialisersKey := by
  refine tells_of_leads fun s => ?_
  unfold key
  refine .look (token_run s) ?_
  split
  · rename_i w escaped token
    refine .advance fun v => .pure ⟨?_, Nat.le_refl 0⟩
    rw [token]
    rintro e computed ⟨⟩
    exact .name w escaped
  · rename_i text token
    refine .advance fun v => .pure ⟨?_, Nat.le_refl 0⟩
    rw [token]
    rintro e computed ⟨⟩
    exact .string text
  · rename_i x token
    refine .advance fun v => .pure ⟨?_, Nat.le_refl 0⟩
    rw [token]
    rintro e computed ⟨⟩
    exact .number x
  · refine .advance fun v => .pure ⟨?_, Nat.le_refl 0⟩
    rintro e computed ⟨⟩
  · rename_i token
    refine .advance fun v => .bind (tells.assignment _) fun p ms w _ first => ?_
    refine .expectMark fun w => ?_
    refine .pure ⟨?_, by simp [Phrase.initialisersKey]⟩
    rw [token]
    rintro e computed ⟨⟩
    rename_i bears
    simpa using IsPropertyKey.computed (first _ bears)
  · exact .failure

omit tells in
/-- The key that a word is. -/
theorem passed_of_key {u v : Stream} {w : String} {escaped : Bool} {k : Key Phrase}
    (word : u.token = .word w escaped) (run : key r c u = some (k, v)) :
    Passed u [.plain (.word w escaped)] 0 v ∧ k = .name w := by
  unfold key at run
  rw [bind_run (token_run u), word] at run
  obtain ⟨_, v, step, ⟨⟩⟩ := exists_of_bind run
  have passed := Passed.step (eq_of_advance step)
  rw [word] at passed
  exact ⟨passed, rfl⟩

omit tells in
theorem denotedBy_method (k : Key Phrase) (ls : List Symbol) : (Entry.method k).DenotedBy ls := by
  rintro property ⟨⟩

/-- A member that is only a name, with or without an initialiser. -/
theorem leads_shorthand {s : Stream} (w : String) (escaped : Bool) (n : Nat) (u : Stream) :
    Leads s [.plain (.word w escaped)] n u (do
        if !isName w then failure
        flawIf (c.claims w)
        if ← skipMark "=" then
          let _ ← r.assignment c
          modify fun s => { s with unset := s.unset + 1 }
          return .initialised w
        return .shorthand w) fun k ls n =>
      k.DenotedBy ls ∧ Phrase.initialisersEntries [k] ≤ n := by
  dsimp only
  split
  · exact .failure_bind
  · rename_i named
    refine .flawIf fun v _ => .skipMark (fun _ v => ?_) fun _ => .pure ⟨?_, Nat.zero_le _⟩
    · refine .bind (tells.assignment c) fun p ms v _ _ => .run fun _ v' counted => ?_
      cases counted
      refine ⟨[], 1, .stay rfl rfl (Nat.le_refl _), .pure ⟨?_, Nat.le_add_left 1 _⟩⟩
      rintro _ ⟨⟩
    · rintro _ ⟨⟩
      exact .shorthand escaped (by simpa using named)

/-- A member of an object; what was passed before it is part of a method. -/
theorem leads_plainEntry {s u : Stream} {ls : List Symbol} {isAsync : Bool}
    (before : isAsync = true ∨ ls = []) (n : Nat) :
    Leads s ls n u (plainEntry r c isAsync) fun k ls n =>
      k.DenotedBy ls ∧ Phrase.initialisersEntries [k] ≤ n := by
  -- A method has no tree, so that it is passed over is all there is to show; three ways lead to one.
  have method (k : Key Phrase) (isGenerator : Bool) (ls : List Symbol) (m : Nat) (v : Stream) :
      Leads s ls m v (do
          let _ ← functionTail r c isAsync isGenerator
          return .method k) fun k ls n => k.DenotedBy ls ∧ Phrase.initialisersEntries [k] ≤ n :=
    .after (moves_functionTail tells.moves c isAsync isGenerator) fun _ _ _ =>
      .pure ⟨denotedBy_method k _, Nat.zero_le _⟩
  unfold plainEntry
  refine .skipMark (fun _ v => ?_) fun _ => .look (token_run u) ?_
  · refine .look (token_run v) (.bind (tells_key tells c) fun k _ v _ _ => ?_)
    refine .look (atMark_run _ v) ?_
    rw [Bool.true_or, Bool.true_or, if_pos rfl]
    exact method k true _ _ v
  · cases isAsync with
    | true =>
      refine .bind (tells_key tells c) fun k _ v _ _ => .look (atMark_run _ v) ?_
      rw [Bool.false_or, Bool.true_or, if_pos rfl]
      exact method k false _ _ v
    | false =>
      obtain rfl : ls = [] := by simpa using before
      simp only [Bool.false_or]
      cases token : u.token with
      | word w escaped =>
        refine .run fun k v run => ?_
        -- A word may be a key or a whole member; any other key has to be followed by a colon.
        obtain ⟨passed, rfl⟩ := passed_of_key c token run
        refine ⟨_, 0, passed, .look (atMark_run _ v) ?_⟩
        split
        · exact method _ false _ _ v
        · refine .skipMark (fun _ v => ?_) fun _ => ?_
          · refine .bind (tells.assignment c) fun p ms v _ value => .pure ⟨?_, ?_⟩
            · rintro _ (⟨⟨⟩, bears⟩ | _)
              exact .pair (.name w escaped) (value _ bears)
            · simp [Phrase.initialisersEntries, Phrase.initialisersKey]
          · exact leads_shorthand tells c w escaped _ v
      | _ =>
        refine .bind (tells_key tells c) fun k ms v _ denoted => .look (atMark_run _ v) ?_
        split
        · exact method _ false _ _ v
        · refine .skipMark (fun _ v => ?_) fun _ => .failure
          refine .bind (tells.assignment c) fun p ms v _ value => .pure ⟨?_, ?_⟩
          · rintro _ (⟨inKey, bears⟩ | _)
            simpa using IsProperty.pair (denoted _ _ inKey) (value _ bears)
          · simp [Phrase.initialisersEntries]

omit tells in
theorem Leads.skipModifier {s u : Stream} {ls : List Symbol} {n : Nat} {w : String}
    {sameLine : Bool} {p : Token → Bool} {f : Bool → Parser α} {Q : α → List Symbol → Nat → Prop}
    (hit : ∀ ms v, Leads s (ls ++ ms) n v (f true) Q) (miss : Leads s ls n u (f false) Q) :
    Leads s ls n u (Parser.skipModifier w sameLine p >>= f) Q := by
  refine .run fun found v run => ?_
  cases found with
  | true =>
    obtain ⟨ms, passed⟩ := moves_skipModifier w sameLine p u true v run
    exact ⟨ms, 0, passed, hit ms v⟩
  | false =>
    unfold Parser.skipModifier at run
    obtain ⟨modifies, u', look, run⟩ := exists_of_bind run
    cases modifies with
    | true => obtain ⟨_, _, -, ⟨⟩⟩ := exists_of_bind run
    | false =>
      cases run
      obtain rfl := looks_atModifier w sameLine p u false v look
      exact ⟨[], 0, .refl v, by simpa using miss⟩

omit tells in
theorem denotedBy_accessor (k : Key Phrase) (ls : List Symbol) :
    (Entry.accessor k).DenotedBy ls := by
  rintro property ⟨⟩

theorem tells_entry : Tells (entry r c) (fun ls k => k.DenotedBy ls)
    (fun k => Phrase.initialisersEntries [k]) := by
  refine tells_of_leads fun s => ?_
  have accessor (writes : Bool) (ls : List Symbol) (n : Nat) (u : Stream) : Leads s ls n u (do
      let k ← key r c
      accessorTail r c writes
      return .accessor k) fun k ls n => k.DenotedBy ls ∧ Phrase.initialisersEntries [k] ≤ n :=
    .after (moves_key tells.moves c) fun k _ _ =>
      .after (moves_accessorTail tells.moves c writes) fun _ _ _ =>
        .pure ⟨denotedBy_accessor k _, Nat.zero_le _⟩
  unfold entry
  refine .skipMark (fun _ v => ?_) fun _ => ?_
  · refine .bind (tells.assignment c) fun p ms v _ first => .pure ⟨?_, ?_⟩
    · rintro _ ⟨⟩
      rename_i bears
      exact .spread (first _ bears)
    · simp [Phrase.initialisersEntries]
  · refine .skipModifier (fun ms v => leads_plainEntry tells c (.inl rfl) 0) ?_
    refine .skipModifier (fun ms v => accessor false _ _ v) ?_
    refine .skipModifier (fun ms v => accessor true _ _ v) ?_
    exact leads_plainEntry tells c (.inr rfl) 0

theorem tells_object : TellsPhrase (object r c) .operand := by
  refine tells_of_leads fun s => ?_
  unfold object
  refine .expectMark fun v => ?_
  have items := (tells_entry tells c.bracketed).list (by decide : "\x7d" ≠ ",") (fun _ => False)
    (by rintro s a t run ⟨⟩)
  refine .bind items fun found ms w _ read => .pure ⟨?_, ?_⟩
  · simpa using Phrase.denotedBy_object found.2 read
  · simp [Phrase.initialisers, Phrase.initialisersEntries_eq found.1]

/-! ## Operands -/

theorem tells_parens : TellsPhrase (parens r c) .operand := by
  refine tells_of_leads fun s => ?_
  unfold parens
  refine .expectMark fun v => .bind (tells_expression tells _) fun p ms v _ inside => ?_
  refine .expectMark fun v => .pure ⟨?_, by simp [Phrase.initialisers]⟩
  simpa using inside.parens

omit tells in
theorem leads_regularExpression {s u : Stream} {ls : List Symbol} {n : Nat} {m : String}
    (slash : u.token = .mark m) (known : m = "/" ∨ m = "/=") (rank : Rank) :
    Leads s ls n u regularExpression (Fits rank) := by
  intro passed p t run
  unfold regularExpression at run
  rw [bind_run (get_run u)] at run
  cases read : regularExpression? u.rest with
  | none =>
    rw [read] at run
    cases run
  | some rest =>
    rw [read] at run
    dsimp only at run
    rw [bind_run (set_run _ _)] at run
    obtain ⟨_, v, step, ⟨⟩⟩ := exists_of_bind run
    have next := eq_of_advance step
    have across := Passed.regularExpression slash known read (Stream.stands_of_next? next)
      (Nat.le_of_eq (Stream.unset_of_next? next).symm)
    exact ⟨_, _, passed.trans across, fits_foreign _ _ _ _⟩

omit tells in
/-- The name that a word is. -/
theorem passed_of_bindingName {u v : Stream} {w name : String} {escaped : Bool}
    (word : u.token = .word w escaped) (run : bindingName c u = some (name, v)) :
    Passed u [.plain (.word w escaped)] 0 v ∧ name = w ∧ isName w := by
  unfold bindingName at run
  rw [bind_run (token_run u), word] at run
  dsimp only at run
  split at run
  · cases run
  · rename_i named
    obtain ⟨_, noted, flawed, run⟩ := exists_of_bind run
    obtain ⟨_, v, step, ⟨⟩⟩ := exists_of_bind run
    have stepped := Passed.step (eq_of_advance step)
    rw [(eq_of_flawIf flawed).1, word] at stepped
    exact ⟨(passed_of_flawIf flawed).trans stepped, rfl, by simpa using named⟩

theorem leads_wordOperand {s : Stream} {w : String} {escaped : Bool}
    (word : s.token = .word w escaped) : Leads s [] 0 s (wordOperand r c w) (Fits .operand) := by
  unfold wordOperand
  split
  · refine .takeWord fun v => .pure ⟨?_, Nat.le_refl 0⟩
    rw [word]
    rintro e ⟨⟨⟩, -⟩
    exact .null escaped
  · refine .takeWord fun v => .pure ⟨?_, Nat.le_refl 0⟩
    rw [word]
    rintro e ⟨⟨⟩, -⟩
    exact .true escaped
  · refine .takeWord fun v => .pure ⟨?_, Nat.le_refl 0⟩
    rw [word]
    rintro e ⟨⟨⟩, -⟩
    exact .false escaped
  · exact .takeWord fun v => .pure (fits_foreign _ _ _ _)
  · refine .after (moves_function tells.moves c false false) fun _ _ _ => ?_
    exact .pure (fits_foreign _ _ _ _)
  · exact .after (moves_classTail tells.moves c false) fun _ _ _ => .pure (fits_foreign _ _ _ _)
  · refine .looks looks_atAsyncFunction fun isAsync => ?_
    cases isAsync with
    | true =>
      refine .takeWord fun v => ?_
      refine .after (moves_function tells.moves c true false) fun _ _ _ => ?_
      exact .pure (fits_foreign _ _ _ _)
    | false =>
      refine .run fun name v run => ?_
      obtain ⟨passed, rfl, named⟩ := passed_of_bindingName c word run
      exact ⟨_, 0, passed, .pure ⟨Phrase.denotedBy_name escaped named, Nat.le_refl 0⟩⟩

theorem tells_simpleOperand : TellsPhrase (simpleOperand r c) .operand := by
  refine tells_of_leads fun s => ?_
  unfold simpleOperand
  refine .look (token_run s) ?_
  split
  · rename_i w escaped token
    exact leads_wordOperand tells c token
  · rename_i x token
    refine .advance fun v => .pure ⟨?_, Nat.le_refl 0⟩
    rw [token]
    rintro e ⟨⟨⟩, -⟩
    exact .number x
  · exact .advance fun v => .pure (fits_foreign _ _ _ _)
  · rename_i text token
    refine .advance fun v => .pure ⟨?_, Nat.le_refl 0⟩
    rw [token]
    rintro e ⟨⟨⟩, -⟩
    exact .string text
  · exact .last (tells_template tells c false) (by simp)
  · rename_i m token
    split
    · exact .last (tells_parens tells c) (by simp)
    · exact .last (tells_array tells c) (by simp)
    · exact .last (tells_object tells c) (by simp)
    · exact leads_regularExpression token (by simp) _
    · exact leads_regularExpression token (by simp) _
    · refine .look (fuel_run s) (.after (moves_decorators tells.moves c _) fun _ _ _ => ?_)
      exact .after (moves_classTail tells.moves c false) fun _ _ _ => .pure (fits_foreign _ _ _ _)
    · exact .failure
  · exact .failure

/-! ## Operands that start with a keyword of their own -/

theorem foreign_importOperand : Foreign (importOperand r c) := by
  have arguments : Moves (importArguments r c) := by
    have moves := tells.moves
    unfold importArguments
    grind
  unfold importOperand
  refine (moves_expectWord _).foreign fun _ => (moves_skipMark _).foreign fun dot => ?_
  dsimp only
  split
  · refine (moves_skipWord _).foreign fun isMeta => ?_
    split
    · exact foreign_pure _
    · grind
  · grind

omit tells in
theorem foreign_superOperand : Foreign superOperand := by
  unfold superOperand
  grind

theorem foreign_construction : Foreign (construction r c) := by
  have moves := tells.moves
  have arguments := (tells_arguments tells c).moves
  unfold construction
  refine (moves_expectWord _).foreign fun _ => (moves_skipMark _).foreign fun dot => ?_
  split
  · grind
  · refine (tells.moves.member c).foreign fun found => (moves_atMark _).foreign fun optional => ?_
    grind

theorem tells_base : TellsPhrase (base r c) .operand := by
  refine tells_of_leads fun s => ?_
  unfold base
  refine .look (token_run s) ?_
  split
  · exact (foreign_construction tells c).leads _
  · exact (foreign_importOperand tells c).leads _
  · exact foreign_superOperand.leads _
  · exact .last (tells_simpleOperand tells c) (by simp)

/-! ## Members and calls -/

omit tells in
theorem leads_memberName {s u : Stream} {ls : List Symbol} {n : Nat} {p : Phrase}
    (before : Fits .operand p ls n) (optional : Bool) :
    Leads s (ls ++ [.mark (if optional then "?." else ".")]) n u (memberName p optional)
      (Fits .operand) := by
  unfold memberName
  refine .look (token_run u) ?_
  cases token : u.token with
  | word w escaped =>
    refine .advance fun v => .pure ⟨?_, before.2⟩
    rw [token]
    simpa using before.1.member w escaped optional
  | hidden name => exact .advance fun v => .pure (fits_foreign _ _ _ _)
  | _ => exact .failure

theorem leads_memberIndex {s u : Stream} {ls : List Symbol} {n : Nat} {p : Phrase}
    (before : Fits .operand p ls n) (optional : Bool) :
    Leads s (ls ++ optionalPoint optional) n u (memberIndex r c p optional) (Fits .operand) := by
  unfold memberIndex
  refine .expectMark fun v => .bind (tells_expression tells _) fun i ms v _ inside => ?_
  refine .expectMark fun v => .pure ⟨?_, ?_⟩
  · simpa using before.1.index inside optional
  · exact Nat.add_le_add_right before.2 _

theorem leads_memberRest (fuel : Nat) {s u : Stream} {ls : List Symbol} {n : Nat} {p : Phrase}
    {inChain : Bool} (before : Fits .operand p ls n) :
    Leads s ls n u (memberRest r c fuel p inChain) fun found => Fits .operand found.1 := by
  induction fuel generalizing u ls n p inChain with
  | zero => exact .failure
  | succ fuel ih =>
    rw [memberRest]
    refine .look (token_run u) ?_
    split
    · exact .flawIf fun v _ => .after (tells_template tells c true).moves fun _ _ _ =>
        ih (fits_foreign _ _ _ _)
    · rename_i token
      refine .advance fun v => .seq ?_ fun q ms m w link => ih link
      rw [token]
      exact leads_memberName before false
    · split
      · exact .pure before
      · refine .seq ?_ fun q ms m w link => ih link
        simpa [optionalPoint] using leads_memberIndex tells c before false
    · rename_i token
      refine .look (ahead_run u) ?_
      split
      · split
        · exact .pure before
        · refine .advance fun v => .seq ?_ fun q ms m w link => ih link
          rw [token]
          exact leads_memberIndex tells c before true
      · refine .advance fun v => .seq ?_ fun q ms m w link => ih link
        rw [token]
        exact leads_memberName before true
      · refine .advance fun v => .seq ?_ fun q ms m w link => ih link
        rw [token]
        exact leads_memberName before true
      · exact .pure before
    · exact .pure before

theorem moves_member : Moves (member r c) := by
  have tells : Tells (member r c) (fun ls found => found.1.DenotedBy .operand ls)
      (fun found => found.1.initialisers) := by
    refine tells_of_leads fun s => ?_
    unfold member
    refine .bind (tells_base tells c) fun p ms v _ denoted => .look (fuel_run v) ?_
    exact leads_memberRest tells c _ ⟨denoted, by simp⟩
  exact tells.moves

theorem leads_callRest (fuel : Nat) {s u : Stream} {ls : List Symbol} {n : Nat} {p : Phrase}
    {inChain : Bool} (before : Fits .operand p ls n) :
    Leads s ls n u (callRest r c fuel p inChain) fun found => Fits .operand found.1 := by
  induction fuel generalizing u ls n p inChain with
  | zero => exact .failure
  | succ fuel ih =>
    rw [callRest]
    refine .look (fuel_run u) ?_
    refine .seq (leads_memberRest tells c _ before) fun found ms m v links => ?_
    refine .skipMark (fun _ v => .look (atMark_run _ v) ?_) fun _ => .look (atMark_run _ v) ?_
    · split
      · refine .bind (tells_arguments tells c) fun as _ w _ listed => ?_
        obtain ⟨row, same, read⟩ := listed
        refine ih ⟨?_, ?_⟩
        · rw [same]
          simpa [optionalPoint] using links.1.call read true
        · exact Nat.add_le_add_right links.2 _
      · exact .failure
    · split
      · refine .bind (tells_arguments tells c) fun as _ w _ listed => ?_
        obtain ⟨row, same, read⟩ := listed
        refine ih ⟨?_, ?_⟩
        · rw [same]
          simpa [optionalPoint] using links.1.call read false
        · exact Nat.add_le_add_right links.2 _
      · exact .pure links

/-- **An operand is read by the grammar.** -/
theorem tells_operand : TellsPhrase (operand r c) .operand := by
  refine tells_of_leads fun s => ?_
  unfold operand
  refine .bind (tells_base tells c) fun p ms v _ denoted => .look (fuel_run v) ?_
  refine .seq (leads_callRest tells c _ ⟨denoted, by simp⟩) fun found ms m w links => .pure ?_
  obtain ⟨q, inChain⟩ := found
  cases inChain with
  | false => exact links
  | true => exact ⟨links.1.chain, links.2⟩

/-! ## Unary operators -/

omit tells in
@[grind ←]
theorem moves_claimPlace (p : Phrase) : Moves (claimPlace p) := by
  unfold claimPlace
  grind

theorem tells_update : TellsPhrase (update r c) .unary := by
  refine tells_of_leads fun s => ?_
  unfold update
  refine .looks (looks_atMark _) fun increment => .looks (looks_atMark _) fun decrement => ?_
  split
  · refine .advance fun v => .after (tells.unary c).moves fun p _ _ => ?_
    exact .after (moves_claimPlace p) fun _ _ _ => .pure (fits_foreign _ _ _ _)
  · refine .bind (tells_operand tells c) fun p ms v _ denoted => ?_
    refine .looks (looks_atMark _) fun increment => .looks (looks_atMark _) fun decrement => ?_
    refine .looks looks_get fun s => ?_
    split
    · exact .after (moves_claimPlace p) fun _ _ _ => .advance fun v => .pure (fits_foreign _ _ _ _)
    · exact .pure ⟨denoted.unary, by simp⟩

omit tells in
theorem looks_atAwait : Looks (atAwait c) := by
  unfold atAwait
  grind

theorem tells_unary : TellsPhrase (unary r c) .unary := by
  refine tells_of_leads fun s => ?_
  unfold unary
  refine .look (token_run s) ?_
  split
  · rename_i m token
    split
    · rename_i known
      refine .advance fun v => .bind (tells.unary c) fun p ms v _ argument => ?_
      refine .pure ⟨?_, by simp [Phrase.initialisers]⟩
      rw [token]
      exact argument.sign (by simpa [or_assoc] using known)
    · exact .last (tells_update tells c) (by simp)
  · rename_i w escaped token
    split
    · rename_i known
      refine .takeWord fun v => .bind (tells.unary c) fun p ms v _ argument => ?_
      refine .pure ⟨?_, by simp [Phrase.initialisers]⟩
      rw [token]
      exact argument.keyword escaped (by simpa [or_assoc] using known)
    · refine .looks (looks_atAwait c) fun awaits => ?_
      split
      · refine .flawIf fun v _ => .after moves_takeWord fun _ _ _ => ?_
        exact .after (tells.unary _).moves fun _ _ _ => .pure (fits_foreign _ _ _ _)
      · exact .last (tells_update tells c) (by simp)
  · exact .last (tells_update tells c) (by simp)

/-! ## Binary operators -/

omit tells in
@[grind ←]
theorem looks_atAnnotation : Looks atAnnotation := by
  unfold atAnnotation
  grind

omit tells in
/-- Where `in` is an operator at all, it is the same one. -/
theorem binaryOperator?_anywhere {t : Token} {operator : String} {precedence : Nat}
    (found : binaryOperator? c t = some (operator, precedence)) :
    binaryOperator? {} t = some (operator, precedence) := by
  cases t with
  | word w escaped =>
    simp only [binaryOperator?, Option.ite_none_right_eq_some] at found ⊢
    refine ⟨?_, found.2⟩
    have spelt := found.1
    simp only [Bool.or_eq_true, Bool.and_eq_true] at spelt ⊢
    exact spelt.imp_right fun both => ⟨both.1, trivial⟩
  | _ => exact found

theorem foreign_hiddenTest (bound : Nat) : Foreign (hiddenTest r bound c) := by
  have operand := (tells.binary comparisonPrecedence c).moves
  unfold hiddenTest
  grind

omit tells in
/-- Operands are read as far as their operators go on. -/
theorem stops_binaryRest {bound : Nat} {leftParens : Bool} (fuel : Nat) {left p : Phrase}
    {u t : Stream} (run : binaryRest r bound c leftParens fuel left u = some (p, t)) :
    Stops bound c t.token := by
  induction fuel generalizing left u with
  | zero => cases run
  | succ fuel ih =>
    rw [binaryRest] at run
    obtain ⟨annotated, v, look, later⟩ := exists_of_bind run
    have same := looks_atAnnotation _ _ _ look
    rw [same] at later
    clear run
    split at later
    · cases later
    · dsimp only at later
      rw [bind_run (token_run u)] at later
      cases found : binaryOperator? c u.token with
      | none =>
        rw [found] at later
        cases later
        intro operator precedence at_hand
        rw [found] at at_hand
        cases at_hand
      | some entry =>
        obtain ⟨operator, precedence⟩ := entry
        rw [found] at later
        dsimp only at later
        split at later
        · rename_i ends
          cases later
          intro operator' precedence' at_hand
          rw [found] at at_hand
          cases at_hand
          simpa using ends
        -- The operator binds and is taken with its right operand; the loop goes on from there.
        · split at later
          all_goals
            obtain ⟨_, _, -, later⟩ := exists_of_bind later
            obtain ⟨_, _, -, later⟩ := exists_of_bind later
            obtain ⟨_, _, -, later⟩ := exists_of_bind later
            obtain ⟨_, _, -, later⟩ := exists_of_bind later
            obtain ⟨_, _, -, later⟩ := exists_of_bind later
            exact ih later

omit tells in
theorem stops_binary {bound : Nat} {p : Phrase} {s t : Stream}
    (run : binary r bound c s = some (p, t)) : Stops bound c t.token := by
  unfold binary at run
  obtain ⟨_, _, -, run⟩ := exists_of_bind run
  obtain ⟨t, _, -, run⟩ := exists_of_bind run
  split at run
  all_goals
    obtain ⟨_, _, -, run⟩ := exists_of_bind run
    obtain ⟨_, _, -, run⟩ := exists_of_bind run
    exact stops_binaryRest c _ run

omit tells in
/-- An operator at which tighter operands stop is no power. -/
theorem left_eq_of_stops {t t' : Token} {operator operator' : String} {precedence precedence' : Nat}
    (known : binaryOperator? {} t = some (operator, precedence))
    (known' : binaryOperator? {} t' = some (operator', precedence'))
    (stops : continues precedence operator' precedence' = false) :
    Rank.left operator' precedence' = .binary (precedence' - 1) := by
  obtain ⟨-, most, -⟩ := precedence_facts (mem_of_binaryOperator? known)
  obtain ⟨-, -, power, -⟩ := precedence_facts (mem_of_binaryOperator? known')
  refine if_neg fun isPower => ?_
  simp only [beq_iff_eq] at isPower
  simp only [continues, isPower, Bool.or_eq_false_iff, decide_eq_false_iff_not, beq_self_eq_true,
    Bool.and_true, beq_eq_false_iff_ne, power.1 isPower] at stops
  omega

omit tells in
/-- An operator at which tighter operands stop takes what they are joined to on its left. -/
theorem continues_of_stops {t : Token} {operator operator' : String}
    {precedence precedence' : Nat} (known : binaryOperator? {} t = some (operator, precedence))
    (stops : continues precedence operator' precedence' = false) :
    continues (precedence' - 1) operator precedence := by
  obtain ⟨least, -⟩ := precedence_facts (mem_of_binaryOperator? known)
  simp only [continues, Bool.or_eq_false_iff, decide_eq_false_iff_not] at stops
  simp only [continues, Bool.or_eq_true, decide_eq_true_eq]
  omega

/-- The right operand, and whatever operators follow. -/
theorem leads_rightOperand {rest : Phrase → Parser Phrase} {f : Bool → Phrase → Bool} {s : Stream}
    {t : Token} {bound : Nat} {ls : List Symbol} {n : Nat} {left : Phrase} {operator : String}
    {precedence : Nat}
    (known : binaryOperator? {} t = some (operator, precedence))
    (binds : continues bound operator precedence) (before : Fits (.binary bound) left ls n)
    (ready : left.DenotedBy (.left operator precedence) ls)
    (later : ∀ u ms m p, Fits (.binary bound) p ms m →
      (∀ operator precedence, binaryOperator? c u.token = some (operator, precedence) →
        p.DenotedBy (.left operator precedence) ms) →
      Leads s ms m u (rest p) (Fits (.binary bound))) (v : Stream) :
    Leads s (ls ++ [.plain t]) n v (do
      let rightParens ← atMark "("
      let right ← r.binary precedence c
      flawIf (f rightParens right)
      flawIf (operator == "**" && left.isUnary)
      rest (.joined operator left right)) (Fits (.binary bound)) := by
  refine .looks (looks_atMark _) fun rightParens => ?_
  refine .bind (tells.binary precedence c) fun right ms w run second => ?_
  refine .flawIf fun w' same => .flawIf fun w'' same' => later _ _ _ _ ⟨?_, ?_⟩ ?_
  · simpa using ready.joined known binds second
  · rw [Phrase.initialisers_joined]
    exact Nat.add_le_add_right before.2 _
  · intro operator' precedence' found
    rw [same', same] at found
    have stops := tells.stops _ _ _ _ _ run _ _ found
    rw [left_eq_of_stops known (binaryOperator?_anywhere c found) stops]
    simpa using ready.joined known (continues_of_stops known stops) second

/-- Operators after a left operand. It is one for whatever operator is at hand: the operand before
that was read as far as its operators go on. -/
theorem leads_binaryRest {bound : Nat} {leftParens : Bool} (fuel : Nat) {s u : Stream}
    {ls : List Symbol} {n : Nat} {left : Phrase} (before : Fits (.binary bound) left ls n)
    (ready : ∀ operator precedence, binaryOperator? c u.token = some (operator, precedence) →
      left.DenotedBy (.left operator precedence) ls) :
    Leads s ls n u (binaryRest r bound c leftParens fuel left) (Fits (.binary bound)) := by
  induction fuel generalizing u ls n left with
  | zero => exact .failure
  | succ fuel ih =>
    rw [binaryRest]
    refine .looks looks_atAnnotation fun annotated => ?_
    split
    · exact .failure_bind
    · refine .look (token_run u) ?_
      split
      · exact .pure before
      · rename_i operator precedence found
        have known := binaryOperator?_anywhere c found
        split
        · exact .pure before
        · rename_i goesOn
          have binds : continues bound operator precedence := by simpa using goesOn
          have first := ready _ _ found
          split
          · exact .takeWord (leads_rightOperand tells c known binds before first fun _ _ _ _ => ih)
          · exact .advance (leads_rightOperand tells c known binds before first fun _ _ _ _ => ih)

theorem tells_binary (bound : Nat) : TellsPhrase (binary r bound c) (.binary bound) := by
  refine tells_of_leads fun s => ?_
  unfold binary
  refine .looks (looks_atMark _) fun leftParens => .look (token_run s) ?_
  split
  · refine .bind ((foreign_hiddenTest tells c bound).tells .unary) fun left ms v _ denoted => ?_
    exact .look (fuel_run v) (leads_binaryRest tells c _ ⟨denoted.binary bound, by simp⟩
      fun operator precedence _ => denoted.left operator precedence)
  · refine .bind (tells_unary tells c) fun left ms v _ denoted => ?_
    exact .look (fuel_run v) (leads_binaryRest tells c _ ⟨denoted.binary bound, by simp⟩
      fun operator precedence _ => denoted.left operator precedence)

/-! ## Conditionals, assignments and arrow functions -/

omit tells in
@[grind ←]
theorem looks_atYield : Looks (atYield c) := by
  unfold atYield
  grind

theorem foreign_suspension : Foreign (suspension r c) := by
  have operand := (tells.assignment { c with inGenerator := true }).moves
  unfold suspension
  grind

theorem foreign_arrowTail (isAsync : Bool) : Foreign (arrowTail r c isAsync) := by
  have body := (tells.assignment { c with inAsync := isAsync, inGenerator := false }).moves
  have block := moves_block tells.moves (Context.body isAsync false)
  unfold arrowTail
  grind

theorem foreign_arrow : Foreign (arrow r c) := by
  unfold arrow
  exact (moves_arrowHead tells.moves c).foreign fun isAsync => foreign_arrowTail tells c isAsync

theorem leads_assignmentRest {s u : Stream} {ls : List Symbol} {n : Nat} {left : Phrase}
    (before : Fits (.binary 0) left ls n) :
    Leads s ls n u (assignmentRest r c left) (Fits .assignment) := by
  unfold assignmentRest
  refine .look (token_run u) ?_
  split
  · rename_i token
    refine .advance fun v => .bind (tells.assignment _) fun p ms v _ consequent => ?_
    refine .expectMark fun v => .bind (tells.assignment c) fun q ns v _ alternate => .pure ⟨?_, ?_⟩
    · rw [token]
      simpa using before.1.conditional consequent alternate
    · simp only [Phrase.initialisers]
      have := before.2
      omega
  · split
    · refine .claimTarget before.2 fun v => .advance fun v => ?_
      exact .after (tells.assignment c).moves fun _ _ _ => .pure (fits_foreign _ _ _ _)
    · exact .pure ⟨before.1.assignment, before.2⟩
  · exact .pure ⟨before.1.assignment, before.2⟩

theorem leads_operandsRest {s u : Stream} {ls : List Symbol} {n : Nat} {left : Phrase}
    (before : Fits (.binary 0) left ls n) :
    Leads s ls n u (operandsRest r c left) (Fits .assignment) := by
  unfold operandsRest
  refine .look (token_run u) ?_
  split
  · exact (foreign_arrowTail tells c false).leads _
  · exact leads_assignmentRest tells c before

/-- Where both an arrow function and operands may start, what is read first may be read again. -/
theorem leads_possibleArrow {s : Stream} :
    Leads s [] 0 s (possibleArrow r c) (Fits .assignment) := by
  unfold possibleArrow
  refine .look (get_run s) ?_
  cases read : binary r 0 c s with
  | none => exact (foreign_arrow tells c).leads _
  | some found =>
    obtain ⟨left, u⟩ := found
    obtain ⟨ls, passed, denoted⟩ := tells_binary tells c 0 s left u read
    dsimp only
    split
    · cases head : arrowHead r c s with
      | some found =>
        obtain ⟨isAsync, v⟩ := found
        obtain ⟨ms, passed⟩ := moves_arrowHead tells.moves c s isAsync v head
        exact .set passed ((foreign_arrowTail tells c isAsync).leads _)
      | none => exact .set passed (.pure ⟨denoted.assignment, Nat.le_refl _⟩)
    · exact .set passed (leads_assignmentRest tells c ⟨denoted, Nat.le_refl _⟩)

theorem tells_arrowOrOperands : TellsPhrase (arrowOrOperands r c) .assignment := by
  refine tells_of_leads fun s => ?_
  unfold arrowOrOperands
  refine .look (get_run s) ?_
  split
  · refine .bind (tells_binary tells c 0) fun left ms v _ denoted => ?_
    exact leads_operandsRest tells c ⟨denoted, by simp⟩
  · exact leads_possibleArrow tells c
  · exact (foreign_arrow tells c).leads _

/-- **An expression without comma operator is read by the grammar.** -/
theorem tells_assignment : TellsPhrase (assignment r c) .assignment := by
  refine tells_of_leads fun s => ?_
  unfold assignment
  refine .looks (looks_atYield c) fun yields => ?_
  split
  · exact (foreign_suspension tells c).leads _
  · refine .looks looks_atAsyncArrow fun isAsync => ?_
    split
    · refine .after moves_takeWord fun _ _ _ => .after (moves_bindingName c) fun _ _ _ => ?_
      exact (foreign_arrowTail tells c true).leads _
    · exact .last (tells_arrowOrOperands tells c) (by simp)

end Parser

end MiniTemplate.Script
