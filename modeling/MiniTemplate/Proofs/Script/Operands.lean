import MiniTemplate.Proofs.Script.Levels

/-!
# Operands that are read back

Which lexemes the rules for operands read as which tree. Member accesses and calls are read
by loops that extend an operand to the right, and a tree of them leans to the left. So
`ParsesOperand` does not say that a loop ends after the lexemes, but which state it has
reached there, and each link of the tree is one step of it.
-/

namespace MiniTemplate.Script

open MiniTemplate.Script.Parser

/-! ## Operands by themselves -/

/-- Whether a phrase is an operand: no operator joins its parts. -/
def Phrase.isTerm : Phrase → Bool
  | .name _ | .literal _ | .template .. | .array .. | .object .. | .member .. | .index ..
  | .call .. | .chain _ | .parens _ => true
  | _ => false

/-- Lexemes are read as an operand by itself. -/
def ParsesBase (ls : List Lexeme) (e : Expr) : Prop :=
  ∀ (n : Nat) ⦃s u : Stream⦄, Reads s ls u → s.left ≤ n →
    ∃ p, base (nested n) {} s = some (p, u) ∧ p.lower = .ok e ∧ p.isTerm

section
variable {r : Nested} {c : Context} {s t : Stream}

theorem base_eq_simpleOperand
    (other : ∀ w ∈ ["new", "import", "super"], ∀ escaped, s.token ≠ .word w escaped) :
    base r c s = simpleOperand r c s := by
  unfold base
  rw [bind_run (token_run s)]
  refine congrFun ?_ s
  split
  · rename_i same
    exact absurd same (other "new" (by decide) _)
  · rename_i same
    exact absurd same (other "import" (by decide) _)
  · rename_i same
    exact absurd same (other "super" (by decide) _)
  · rfl

theorem base_eq_wordOperand {w : String} (word : s.token = .word w false)
    (other : w ∉ ["new", "import", "super"]) : base r c s = wordOperand r c w s := by
  rw [base_eq_simpleOperand]
  · unfold simpleOperand
    rw [bind_run (token_run s), word]
  · rintro v member escaped same
    rw [word] at same
    cases same
    exact other member

end

theorem parsesBase_name {w : String} (name : isName w) (plain : w ∉ ["async", "await", "yield"]) :
    ParsesBase [.word w] (.identifier w) := by
  intro n s u reads _
  obtain ⟨t, token, next, -, done⟩ := reads.cons_plain rfl
  rw [done.eq_of_nil]
  have reserved : ∀ v ∈ reservedWords, w ≠ v := by
    rintro v member rfl
    simp [isName, member] at name
  have other : w ∉ ["new", "import", "super"] := fun member =>
    reserved w ((by decide : ["new", "import", "super"] ⊆ reservedWords) member) rfl
  have notAsync : s.token.isWord "async" = false := by
    rw [token]
    simp only [List.mem_cons, not_or] at plain
    simpa [Lexeme.token, Token.isWord] using plain.1
  have binding : bindingName {} s = some (w, t) := by
    have claimed : Context.claims {} w = false := by
      simp only [List.mem_cons, not_or] at plain
      simpa [Context.claims] using plain.2.1
    unfold bindingName
    rw [bind_run (token_run s), token]
    simp only [Lexeme.token, name, claimed, Bool.not_true, Bool.false_eq_true, if_false]
    rw [bind_run (flawIf_false s), bind_run (advance_run next)]
    rfl
  refine ⟨.name w, ?_, rfl, rfl⟩
  rw [base_eq_wordOperand token other, wordOperand]
  · have noFunction : atAsyncFunction s = some (false, s) := by
      unfold atAsyncFunction
      rw [bind_run (atWord_run "async" s), notAsync]
      rfl
    rw [bind_run noFunction]
    simp only [Bool.false_eq_true, if_false]
    rw [bind_run binding]
    rfl
  all_goals exact reserved _ (by decide)

/-- The word of a literal that has one. -/
theorem parsesBase_keyword {w : String} {value : Literal}
    (keyword : (w, value) ∈
      [("null", Literal.null), ("true", .bool true), ("false", .bool false)]) :
    ParsesBase [.word w] (.literal value) := by
  intro n s u reads _
  obtain ⟨t, token, next, -, done⟩ := reads.cons_plain rfl
  rw [done.eq_of_nil]
  refine ⟨.literal value, ?_, rfl, rfl⟩
  simp only [List.mem_cons, Prod.mk.injEq, List.not_mem_nil, or_false] at keyword
  have taken : takeWord s = some ((), t) := takeWord_run token next
  rcases keyword with ⟨rfl, rfl⟩ | ⟨rfl, rfl⟩ | ⟨rfl, rfl⟩
  all_goals
    rw [base_eq_wordOperand token (by decide), wordOperand, bind_run taken]
    rfl

theorem parsesBase_number (value : Nat) :
    ParsesBase [.number value] (.literal (.number (.ofNat value))) := by
  intro n s u reads _
  obtain ⟨t, token, next, -, done⟩ := reads.cons_plain rfl
  rw [done.eq_of_nil]
  refine ⟨.literal (.number (.ofNat value)), ?_, rfl, rfl⟩
  rw [base_eq_simpleOperand (by simp [token, Lexeme.token])]
  unfold simpleOperand
  rw [bind_run (token_run s), token]
  simp only [Lexeme.token]
  rw [bind_run (advance_run next)]
  rfl

theorem parsesBase_string (value : String) :
    ParsesBase [.string value] (.literal (.string value)) := by
  intro n s u reads _
  obtain ⟨t, token, next, -, done⟩ := reads.cons_plain rfl
  rw [done.eq_of_nil]
  refine ⟨.literal (.string value), ?_, rfl, rfl⟩
  rw [base_eq_simpleOperand (by simp [token, Lexeme.token])]
  unfold simpleOperand
  rw [bind_run (token_run s), token]
  simp only [Lexeme.token]
  rw [bind_run (advance_run next)]
  rfl

/-- Parentheses make an operand of any expression. -/
theorem parsesBase_parens {ls : List Lexeme} {e : Expr} (parses : ParsesExpression ls e) :
    ParsesBase (.mark "(" :: (ls ++ [.mark ")"])) e := by
  intro n s u reads deep
  obtain ⟨t, opens, next, fewer, inner⟩ := reads.cons_mark
  obtain ⟨v, inner, tail⟩ := Reads.append_iff.1 inner
  obtain ⟨w, closes, after, -, done⟩ := tail.cons_mark
  rw [done.eq_of_nil]
  obtain ⟨p, read, lower⟩ := parses n inner (by rw [closes]; rfl) (by omega)
  refine ⟨.parens p, ?_, lower, rfl⟩
  rw [base_eq_simpleOperand (by simp [opens])]
  unfold simpleOperand
  rw [bind_run (token_run s), opens]
  show parens (nested n) {} s = _
  unfold parens
  rw [bind_run (expectMark_hit opens next), Context.enclosed_default, bind_run read,
    bind_run (expectMark_hit closes after)]
  rfl

/-! ## Templates -/

/-- The substitutions of a template, each with the text after it. -/
def substitutions (parts : Expr → List Lexeme) : List Expr → List String → List Lexeme
  | e :: es, q :: qs => parts e ++ .resumption q es.isEmpty :: substitutions parts es qs
  | _, _ => []

theorem resumeTemplate_run {s : Stream} {token : Token} {rest : List Char}
    (brace : s.token = .mark "\x7d") (read : Token.template? s.rest = some (token, rest)) :
    resumeTemplate s = some ((), { s with token, rest }) := by
  unfold resumeTemplate
  rw [bind_run (get_run s), brace]
  simp only [beq_self_eq_true, if_true, read]
  rfl

/-- The loop over a template's parts, from the text before the first substitution on. -/
theorem templateParts_run {parts : Expr → List Lexeme} :
    ∀ {es : List Expr} {qs : List String}, (∀ e ∈ es, ParsesExpression (parts e) e) →
      qs.length = es.length → ∀ (fuel n : Nat) {q : String} {s t u : Stream},
        s.token = .template (some q) es.isEmpty → s.next? = some t →
        Reads t (substitutions parts es qs) u → t.left < n → t.left < fuel →
        ∃ ps, templateParts (nested n) {} false fuel s = some ((q :: qs, ps), u) ∧
          Phrase.lowerAll ps = .ok es := by
  intro es
  induction es with
  | nil =>
    intro qs _ length fuel n q s t u token next reads _ enough
    obtain ⟨fuel, rfl⟩ : ∃ f, fuel = f + 1 := ⟨fuel - 1, by omega⟩
    obtain rfl : qs = [] := by simpa using length
    rw [reads.eq_of_nil]
    refine ⟨[], ?_, rfl⟩
    unfold templateParts
    rw [bind_run (token_run s), token]
    show (flawIf false >>= _) s = _
    rw [bind_run (flawIf_false s), bind_run (advance_run next)]
    rfl
  | cons e es ih =>
    intro qs each length fuel n q s t u token next reads deep enough
    obtain ⟨fuel, rfl⟩ : ∃ f, fuel = f + 1 := ⟨fuel - 1, by omega⟩
    cases qs with
    | nil => simp at length
    | cons q' qs =>
      obtain ⟨v, inner, tail⟩ := Reads.append_iff.1 reads
      have before := inner.left_le
      cases tail with
      | plain plain => cases plain
      | @resumption _ w _ _ _ rest _ brace read after fewer later =>
        obtain ⟨p, parsed, lower⟩ := each e List.mem_cons_self n inner (by rw [brace]; rfl) deep
        obtain ⟨ps, looped, lowers⟩ :=
          ih (fun e member => each e (List.mem_cons_of_mem _ member)) (by simpa using length) fuel n
            (s := { v with token := .template (some q') es.isEmpty, rest }) rfl after later
            (by omega) (by omega)
        refine ⟨p :: ps, ?_,
          by simp [Phrase.lowerAll, lower, lowers, bind, Except.bind, pure, Except.pure]⟩
        unfold templateParts
        rw [bind_run (token_run s), token]
        show (flawIf false >>= _) s = _
        rw [bind_run (flawIf_false s), bind_run (advance_run next)]
        show (expression (nested n) {} >>= _) t = _
        rw [bind_run parsed, bind_run (resumeTemplate_run brace read), bind_run looped]
        rfl

theorem parsesBase_template {parts : Expr → List Lexeme} {q : String} {qs : List String}
    {es : List Expr} (each : ∀ e ∈ es, ParsesExpression (parts e) e)
    (length : qs.length = es.length) :
    ParsesBase (.opening q es.isEmpty :: substitutions parts es qs) (.template (q :: qs) es) := by
  intro n s u reads deep
  obtain ⟨t, token, next, fewer, later⟩ := reads.cons_plain rfl
  have enough := s.left_lt_fuel
  obtain ⟨ps, looped, lowers⟩ :=
    templateParts_run each length s.fuel n token next later (by omega) (by omega)
  refine ⟨.template (q :: qs) ps, ?_,
    by simp [Phrase.lower, lowers, bind, Except.bind, pure, Except.pure], rfl⟩
  rw [base_eq_simpleOperand (by simp [token, Lexeme.token])]
  unfold simpleOperand
  rw [bind_run (token_run s), token]
  show template (nested n) {} false s = _
  unfold template
  rw [bind_run (fuel_run s), bind_run looped]
  rfl

/-! ## Arguments -/

/-- Lexemes are read as an item of a list that may be spread. -/
inductive ParsesElement : List Lexeme → Expr → Prop where
  | plain {ls : List Lexeme} {e : Expr} (begins : Begins Token.startsExpression ls)
      (parses : ParsesAssignment ls e) : ParsesElement ls e
  | spread {ls : List Lexeme} {e : Expr} (parses : ParsesAssignment ls e) :
      ParsesElement (.mark "..." :: ls) (.spread e)

namespace ParsesElement

variable {ls : List Lexeme} {e : Expr}

theorem ne_nil (element : ParsesElement ls e) : ls ≠ [] := by
  cases element with
  | plain begins =>
    obtain ⟨l, rest, rfl, -⟩ := begins
    simp
  | spread => simp

theorem token_ne {s u : Stream} (element : ParsesElement ls e) (reads : Reads s ls u) {m : String}
    (other : (Token.mark m).startsExpression = false) (dots : m ≠ "...") : s.token ≠ .mark m := by
  cases element with
  | plain begins =>
    intro same
    have starts := begins.token reads
    rw [same, other] at starts
    cases starts
  | spread =>
    obtain ⟨t, token, -⟩ := reads.cons_mark
    simpa [token] using dots.symm

theorem argument_run (element : ParsesElement ls e) (n : Nat) {s u : Stream}
    (reads : Reads s ls u) (settles : u.token.settles 1) (deep : s.left < n) :
    ∃ a, argument (nested n) {} s = some (a, u) ∧ Phrase.lowerArguments [a] = .ok [e] := by
  cases element with
  | plain begins parses =>
    have dots : s.token ≠ .mark "..." := by
      intro same
      have starts := begins.token reads
      rw [same] at starts
      cases starts
    obtain ⟨p, read, lower⟩ := parses.nested_run n reads settles deep
    refine ⟨.plain p, ?_,
      by simp [Phrase.lowerArguments, lower, bind, Except.bind, pure, Except.pure]⟩
    unfold argument
    rw [bind_run (skipMark_miss dots)]
    simp only [Bool.false_eq_true, if_false]
    rw [bind_run read]
    rfl
  | spread parses =>
    obtain ⟨t, dots, next, fewer, later⟩ := reads.cons_mark
    obtain ⟨p, read, lower⟩ := parses.nested_run n later settles (by omega)
    refine ⟨.spread p, ?_,
      by simp [Phrase.lowerArguments, lower, bind, Except.bind, pure, Except.pure]⟩
    unfold argument
    rw [bind_run (skipMark_hit dots next)]
    simp only [if_true]
    rw [bind_run read]
    rfl

end ParsesElement

theorem lowerArguments_of_forall {as : List (Argument Phrase)} {es : List Expr}
    (each : List.Forall₂ (fun a e => Phrase.lowerArguments [a] = .ok [e]) as es) :
    Phrase.lowerArguments as = .ok es := by
  induction each with
  | nil => rfl
  | @cons a e as es first _ ih =>
    cases a <;> cases lower : Phrase.lower ‹Phrase› <;>
      simp_all [Phrase.lowerArguments, bind, Except.bind, pure, Except.pure]

theorem arguments_run {parts : Expr → List Lexeme} {es : List Expr}
    (each : ∀ e ∈ es, ParsesElement (parts e) e) (n : Nat) {s u : Stream}
    (reads : Reads s (.mark "(" :: (withCommas (es.map parts) ++ [.mark ")"])) u)
    (deep : s.left ≤ n) :
    ∃ as, arguments (nested n) {} s = some (as, u) ∧ Phrase.lowerArguments as = .ok es := by
  obtain ⟨t, opens, next, fewer, later⟩ := reads.cons_mark
  have items : ∀ e ∈ es, ParsesItem ")" (argument (nested n) {}) parts
      (fun a e => Phrase.lowerArguments [a] = .ok [e]) t.left e := by
    intro e member v w inner follows within
    have settles := Token.settles_of_follows follows rfl
    exact ⟨(each e member).token_ne inner (by decide) (by decide),
      (each e member).argument_run n inner settles (by omega)⟩
  have solid : ∀ e ∈ es.getLast?, parts e ≠ [] := fun e member =>
    (each e (List.mem_of_getLast? member)).ne_nil
  obtain ⟨as, read, lower⟩ := list_run (by decide) false items solid later (Nat.le_refl _)
  refine ⟨as, ?_, lowerArguments_of_forall lower⟩
  unfold arguments
  rw [bind_run (expectMark_hit opens next), Context.enclosed_default, bind_run read]
  rfl

/-! ## Arrays -/

/-- An argument as an item of an array. -/
def Argument.item {α : Type} : Argument α → Item α
  | .plain value => .plain value
  | .spread value => .spread value

/-- An item of an array that is no hole is read like an argument. -/
theorem item_run {r : Nested} {c : Context} {s u : Stream} {a : Argument Phrase}
    (solid : s.token ≠ .mark ",") (read : argument r c s = some (a, u)) :
    item r c s = some (a.item, u) := by
  have same : item r c s = (Argument.item <$> argument r c) s := by
    unfold item argument
    rw [bind_run (atMark_run "," s), beq_false_of_ne solid]
    simp only [Bool.false_eq_true, if_false, map_bind]
    refine congrFun (congrArg (skipMark "..." >>= ·) ?_) s
    funext dots
    cases dots <;> simp [Argument.item]
  rw [same]
  show (argument r c >>= fun a => pure a.item) s = _
  rw [bind_run read]
  rfl

/-- The lexemes of an array's element; a hole has none. -/
def elementParts (parts : Expr → List Lexeme) : Option Expr → List Lexeme
  | some e => parts e
  | none => []

/-- Whether an array ends in a hole, which a comma follows. -/
def endsInHole (elements : List (Option Expr)) : Bool := elements.getLast?.any Option.isNone

theorem lowerItems_of_forall {is : List (Item Phrase)} {elements : List (Option Expr)}
    (each : List.Forall₂ (fun i element => Phrase.lowerItems [i] = .ok [element]) is elements) :
    Phrase.lowerItems is = .ok elements := by
  induction each with
  | nil => rfl
  | @cons i element is elements first _ ih =>
    cases i with
    | hole => simp_all [Phrase.lowerItems, bind, Except.bind, pure, Except.pure]
    | plain p | spread p =>
      cases lower : p.lower <;>
        simp_all [Phrase.lowerItems, bind, Except.bind, pure, Except.pure]

theorem parsesItem_element {parts : Expr → List Lexeme} (n : Nat) {bound : Nat} (deep : bound < n)
    {element : Option Expr} (solid : ∀ e ∈ element, ParsesElement (parts e) e) :
    ParsesItem "]" (item (nested n) {}) (elementParts parts)
      (fun i element => Phrase.lowerItems [i] = .ok [element]) bound element := by
  intro s u reads follows within
  cases element with
  | none =>
    obtain rfl := reads.eq_of_nil
    have comma : u.token = .mark "," := by
      rcases follows with comma | ⟨-, absent⟩
      · exact comma
      · exact absurd rfl absent
    refine ⟨by simp [comma], .hole, ?_, rfl⟩
    unfold item
    rw [bind_run (atMark_run "," u), comma]
    rfl
  | some e =>
    have settles := Token.settles_of_follows follows rfl
    have element := solid e rfl
    obtain ⟨a, read, lower⟩ := element.argument_run n reads settles (by omega)
    refine ⟨element.token_ne reads (by decide) (by decide), a.item,
      item_run (element.token_ne reads (by decide) (by decide)) read, ?_⟩
    cases a with
    | plain p | spread p =>
      cases lowered : p.lower <;>
        simp_all [Argument.item, Phrase.lowerItems, Phrase.lowerArguments, bind, Except.bind, pure,
          Except.pure]

theorem parsesBase_array {parts : Expr → List Lexeme} {elements : List (Option Expr)}
    (each : ∀ e, some e ∈ elements → ParsesElement (parts e) e) :
    ParsesBase (.mark "[" :: (withCommas (elements.map (elementParts parts)) ++
        ((if endsInHole elements then [.mark ","] else []) ++ [.mark "]"])))
      (.array elements) := by
  intro n s u reads deep
  obtain ⟨t, opens, next, fewer, later⟩ := reads.cons_mark
  have ends : if endsInHole elements then elements ≠ []
      else ∀ element ∈ elements.getLast?, elementParts parts element ≠ [] := by
    cases hole : endsInHole elements with
    | true =>
      rintro rfl
      cases hole
    | false =>
      intro element member
      cases element with
      | none => simp [endsInHole, Option.mem_def.1 member] at hole
      | some e => exact (each e (List.mem_of_getLast? member)).ne_nil
  obtain ⟨is, read, lower⟩ := list_run (by decide) (endsInHole elements)
    (fun element member => parsesItem_element n (by omega)
      fun e same => each e (by rwa [← Option.mem_def.1 same]))
    ends later (Nat.le_refl _)
  refine ⟨.array is (endsInHole elements), ?_,
    by simp [Phrase.lower, lowerItems_of_forall lower, bind, Except.bind, pure, Except.pure], rfl⟩
  rw [base_eq_simpleOperand (by simp [opens])]
  unfold simpleOperand
  rw [bind_run (token_run s), opens]
  show array (nested n) {} s = _
  unfold array
  rw [bind_run (expectMark_hit opens next), Context.bracketed_default, bind_run read]
  rfl

/-! ## Objects -/

/-- Lexemes are read as the key of an object's member, computed or not. -/
inductive ParsesKey : List Lexeme → Expr → Bool → Prop where
  | name (w : String) : ParsesKey [.word w] (.identifier w) false
  | string (value : String) : ParsesKey [.string value] (.literal (.string value)) false
  | number (value : Nat) : ParsesKey [.number value] (.literal (.number (.ofNat value))) false
  | computed {ls : List Lexeme} {e : Expr} (parses : ParsesAssignment ls e) :
      ParsesKey (.mark "[" :: (ls ++ [.mark "]"])) e true

/-- Lexemes are read as a member of an object. -/
inductive ParsesEntry : List Lexeme → Property Expr → Prop where
  | pair {ks vs : List Lexeme} {key value : Expr} {computed : Bool}
      (parsesKey : ParsesKey ks key computed) (parses : ParsesAssignment vs value) :
      ParsesEntry (ks ++ .mark ":" :: vs) (.pair key value computed)
  | spread {ls : List Lexeme} {e : Expr} (parses : ParsesAssignment ls e) :
      ParsesEntry (.mark "..." :: ls) (.spread e)

/-- Whether a key is computed. -/
def Key.isComputed {α : Type} : Key α → Bool
  | .computed _ => true
  | _ => false

namespace ParsesKey

variable {ks : List Lexeme} {e : Expr} {computed : Bool} {s u : Stream}

theorem key_run (parses : ParsesKey ks e computed) (n : Nat) (reads : Reads s ks u)
    (deep : s.left ≤ n) :
    ∃ k, key (nested n) {} s = some (k, u) ∧ Phrase.lowerKey k = .ok e ∧
      k.isComputed = computed := by
  cases parses with
  | name w =>
    obtain ⟨t, token, next, -, done⟩ := reads.cons_plain rfl
    rw [done.eq_of_nil]
    refine ⟨.name w, ?_, rfl, rfl⟩
    unfold key
    rw [bind_run (token_run s), token]
    simp only [Lexeme.token]
    rw [bind_run (advance_run next)]
    rfl
  | string value =>
    obtain ⟨t, token, next, -, done⟩ := reads.cons_plain rfl
    rw [done.eq_of_nil]
    refine ⟨.string value, ?_, rfl, rfl⟩
    unfold key
    rw [bind_run (token_run s), token]
    simp only [Lexeme.token]
    rw [bind_run (advance_run next)]
    rfl
  | number value =>
    obtain ⟨t, token, next, -, done⟩ := reads.cons_plain rfl
    rw [done.eq_of_nil]
    refine ⟨.number (.ofNat value), ?_, rfl, rfl⟩
    unfold key
    rw [bind_run (token_run s), token]
    simp only [Lexeme.token]
    rw [bind_run (advance_run next)]
    rfl
  | computed parses =>
    obtain ⟨t, opens, next, fewer, inner⟩ := reads.cons_mark
    obtain ⟨v, inner, tail⟩ := Reads.append_iff.1 inner
    obtain ⟨w, closes, after, -, done⟩ := tail.cons_mark
    rw [done.eq_of_nil]
    obtain ⟨p, read, lower⟩ := parses.nested_run n inner (by rw [closes]; rfl) (by omega)
    refine ⟨.computed p, ?_, lower, rfl⟩
    unfold key
    rw [bind_run (token_run s), opens]
    simp only
    rw [bind_run (advance_run next), Context.bracketed_default, bind_run read,
      bind_run (expectMark_hit closes after)]
    rfl

/-- A key starts with no word that modifies it: it is no word, or a colon follows it. -/
theorem unmodified (parses : ParsesKey ks e computed) (reads : Reads s ks u) :
    (∀ w escaped, s.token ≠ .word w escaped) ∨ s.next? = some u := by
  cases parses with
  | name w =>
    obtain ⟨t, token, next, -, done⟩ := reads.cons_plain rfl
    rw [done.eq_of_nil]
    exact .inr next
  | string value =>
    obtain ⟨t, token, -⟩ := reads.cons_plain rfl
    exact .inl (by simp [token, Lexeme.token])
  | number value =>
    obtain ⟨t, token, -⟩ := reads.cons_plain rfl
    exact .inl (by simp [token, Lexeme.token])
  | computed parses =>
    obtain ⟨t, opens, -⟩ := reads.cons_mark
    exact .inl (by simp [opens])

theorem token_ne (parses : ParsesKey ks e computed) (reads : Reads s ks u) {m : String}
    (other : m ≠ "[") : s.token ≠ .mark m := by
  cases parses with
  | computed parses =>
    obtain ⟨t, opens, -⟩ := reads.cons_mark
    simpa [opens] using other.symm
  | _ =>
    obtain ⟨t, token, -⟩ := reads.cons_plain rfl
    simp [token, Lexeme.token]

end ParsesKey

theorem skipModifier_miss {s u : Stream} {w : String} {sameLine : Bool} {p : Token → Bool}
    (unmodified : (∀ v escaped, s.token ≠ .word v escaped) ∨ s.next? = some u)
    (colon : p u.token = false) : skipModifier w sameLine p s = some (false, s) := by
  have none : atModifier w sameLine p s = some (false, s) := by
    unfold atModifier
    rw [bind_run (atWord_run w s)]
    rcases unmodified with plain | next
    · rw [Token.isWord_eq_false (plain w)]
      rfl
    · cases s.token.isWord w with
      | false => rfl
      | true =>
        simp only [Bool.not_true, Bool.false_eq_true, if_false]
        rw [bind_run (ahead_run s), next]
        simp only [colon, Bool.and_false]
        rfl
  unfold skipModifier
  rw [bind_run none]
  rfl

namespace ParsesEntry

variable {ls : List Lexeme} {property : Property Expr} {s u : Stream}

theorem ne_nil (parses : ParsesEntry ls property) : ls ≠ [] := by
  cases parses <;> simp

theorem token_ne (parses : ParsesEntry ls property) (reads : Reads s ls u) {m : String}
    (bracket : m ≠ "[") (dots : m ≠ "...") : s.token ≠ .mark m := by
  cases parses with
  | pair parsesKey =>
    obtain ⟨t, key, -⟩ := Reads.append_iff.1 reads
    exact parsesKey.token_ne key bracket
  | spread =>
    obtain ⟨t, token, -⟩ := reads.cons_mark
    simpa [token] using dots.symm

theorem entry_run (parses : ParsesEntry ls property) (n : Nat) (reads : Reads s ls u)
    (settles : u.token.settles 1) (deep : s.left < n) :
    ∃ k, entry (nested n) {} s = some (k, u) ∧ Phrase.lowerEntries [k] = .ok [property] := by
  cases parses with
  | @pair ks vs key value computed parsesKey parses =>
    obtain ⟨v, first, tail⟩ := Reads.append_iff.1 reads
    obtain ⟨w, colon, after, fewer, later⟩ := tail.cons_mark
    have before := first.left_le
    have unmodified := parsesKey.unmodified first
    obtain ⟨k, read, lowerKey, isComputed⟩ := parsesKey.key_run n first (by omega)
    obtain ⟨p, parsed, lower⟩ := parses.nested_run n later settles (by omega)
    refine ⟨.pair k p, ?_, ?_⟩
    · unfold entry
      rw [bind_run (skipMark_miss (parsesKey.token_ne first (by decide)))]
      simp only [Bool.false_eq_true, if_false]
      rw [bind_run (skipModifier_miss unmodified (by rw [colon]; rfl))]
      simp only [Bool.false_eq_true, if_false]
      rw [bind_run (skipModifier_miss unmodified (by rw [colon]; rfl))]
      simp only [Bool.false_eq_true, if_false]
      rw [bind_run (skipModifier_miss unmodified (by rw [colon]; rfl))]
      simp only [Bool.false_eq_true, if_false]
      unfold plainEntry
      rw [bind_run (skipMark_miss (parsesKey.token_ne first (by decide))), bind_run (token_run s),
        bind_run read, bind_run (atMark_run "(" v), beq_false_of_ne (by simp [colon])]
      simp only [Bool.or_false, Bool.false_eq_true, if_false]
      rw [bind_run (skipMark_hit colon after)]
      simp only [if_true]
      rw [bind_run parsed]
      rfl
    · cases k <;>
        simp_all [Phrase.lowerEntries, Phrase.lowerKey, Key.isComputed, bind, Except.bind, pure,
          Except.pure]
  | spread parses =>
    obtain ⟨t, dots, next, fewer, later⟩ := reads.cons_mark
    obtain ⟨p, read, lower⟩ := parses.nested_run n later settles (by omega)
    refine ⟨.spread p, ?_,
      by simp [Phrase.lowerEntries, lower, bind, Except.bind, pure, Except.pure]⟩
    unfold entry
    rw [bind_run (skipMark_hit dots next)]
    simp only [if_true]
    rw [bind_run read]
    rfl

end ParsesEntry

theorem lowerEntries_of_forall {ks : List (Entry Phrase)} {properties : List (Property Expr)}
    (each : List.Forall₂ (fun k property => Phrase.lowerEntries [k] = .ok [property]) ks
      properties) :
    Phrase.lowerEntries ks = .ok properties := by
  induction each with
  | nil => rfl
  | @cons k property ks properties first _ ih =>
    cases k with
    | pair key value =>
      cases lowerKey : Phrase.lowerKey key <;> cases lower : value.lower <;>
        simp_all [Phrase.lowerEntries, bind, Except.bind, pure, Except.pure]
    | shorthand => simp_all [Phrase.lowerEntries, bind, Except.bind, pure, Except.pure]
    | initialised => simp_all [Phrase.lowerEntries, bind, Except.bind, pure, Except.pure]
    | method => simp [Phrase.lowerEntries] at first
    | accessor key =>
      cases lowerKey : Phrase.lowerKey key <;>
        simp [Phrase.lowerEntries, lowerKey, bind, Except.bind] at first
    | spread p =>
      cases lower : p.lower <;>
        simp_all [Phrase.lowerEntries, bind, Except.bind, pure, Except.pure]

theorem parsesBase_object {parts : Property Expr → List Lexeme} {properties : List (Property Expr)}
    (each : ∀ property ∈ properties, ParsesEntry (parts property) property) :
    ParsesBase (.mark "\x7b" :: (withCommas (properties.map parts) ++ [.mark "\x7d"]))
      (.object properties) := by
  intro n s u reads deep
  obtain ⟨t, opens, next, fewer, later⟩ := reads.cons_mark
  have items : ∀ property ∈ properties, ParsesItem "\x7d" (entry (nested n) {}) parts
      (fun k property => Phrase.lowerEntries [k] = .ok [property]) t.left property := by
    intro property member v w inner follows within
    have settles := Token.settles_of_follows follows rfl
    exact ⟨(each property member).token_ne inner (by decide) (by decide),
      (each property member).entry_run n inner settles (by omega)⟩
  have solid : ∀ property ∈ properties.getLast?, parts property ≠ [] := fun property member =>
    (each property (List.mem_of_getLast? member)).ne_nil
  obtain ⟨ks, read, lower⟩ := list_run (by decide) false items solid later (Nat.le_refl _)
  refine ⟨.object ks false, ?_,
    by simp [Phrase.lower, lowerEntries_of_forall lower, bind, Except.bind, pure, Except.pure], rfl⟩
  rw [base_eq_simpleOperand (by simp [opens])]
  unfold simpleOperand
  rw [bind_run (token_run s), opens]
  show object (nested n) {} s = _
  unfold object
  rw [bind_run (expectMark_hit opens next), Context.bracketed_default, bind_run read]
  rfl

/-! ## Members and calls -/

/-- What the loop over calls does after the member accesses of an operand. -/
def callsAfter (r : Nested) (fuel : Nat) (p : Phrase) (inChain : Bool) :
    Parser (Phrase × Bool) := do
  if ← skipMark "?." then
    if ← atMark "(" then
      callRest r {} fuel (.call p (← arguments r {}) true) true
    else failure
  else if ← atMark "(" then
    callRest r {} fuel (.call p (← arguments r {}) false) inChain
  else return (p, inChain)

/-- The loops over calls and member accesses, in a state that they pass through. -/
def linksFrom (r : Nested) (calls members : Nat) (p : Phrase) (inChain : Bool) :
    Parser (Phrase × Bool) := do
  let (p, inChain) ← memberRest r {} members p inChain
  callsAfter r calls p inChain

theorem callRest_eq (r : Nested) (fuel : Nat) (p : Phrase) (inChain : Bool) (s : Stream) :
    callRest r {} (fuel + 1) p inChain s = linksFrom r fuel s.fuel p inChain s := by
  rw [callRest, bind_run (fuel_run s)]
  rfl

/-- An operand with its links, and whether these form an optional chain. -/
def links (r : Nested) : Parser (Phrase × Bool) := do
  let p ← base r {}
  callRest r {} (← fuel) p false

/-- **Lexemes are read as an operand**: after them the loops have reached its tree, with
enough fuel for what is ahead. -/
def ParsesOperand (ls : List Lexeme) (e : Expr) : Prop :=
  ∀ (n : Nat) ⦃s u : Stream⦄, Reads s ls u → s.left ≤ n →
    ∃ p inChain calls members, links (nested n) s = linksFrom (nested n) calls members p inChain u ∧
      u.left ≤ calls ∧ u.left < members ∧ p.lower = .ok e ∧ p.isTerm ∧ (inChain → p.isLink)

theorem ParsesBase.operand {ls : List Lexeme} {e : Expr} (parses : ParsesBase ls e) :
    ParsesOperand ls e := by
  intro n s u reads deep
  obtain ⟨p, read, lower, term⟩ := parses n reads deep
  refine ⟨p, false, u.rest.length + 1, u.fuel, ?_, ?_, u.left_lt_fuel, lower, term, by simp⟩
  · unfold links
    rw [bind_run read, bind_run (fuel_run u)]
    exact callRest_eq ..
  · have enough := u.left_lt_fuel
    simp only [Stream.fuel] at enough
    omega

section
variable {r : Nested} {n calls members : Nat} {p : Phrase} {inChain : Bool} {s t u : Stream}

theorem memberName_run {w : String} {optional : Bool} (word : s.token = .word w false)
    (next : s.next? = some t) : memberName p optional s = some (.member p w optional, t) := by
  unfold memberName
  rw [bind_run (token_run s), word]
  simp only
  rw [bind_run (advance_run next)]
  rfl

/-- A member access by name is one step of the loop over member accesses. -/
theorem memberRest_name {w : String} (optional : Bool)
    (point : s.token = .mark (if optional then "?." else ".")) (next : s.next? = some t)
    (word : t.token = .word w false) (after : t.next? = some u) :
    memberRest r {} (members + 1) p inChain s
      = memberRest r {} members (.member p w optional) (inChain || optional) u := by
  rw [memberRest, bind_run (token_run s), point]
  cases optional with
  | false =>
    simp only [Bool.false_eq_true, if_false, Bool.or_false]
    rw [bind_run (advance_run next), bind_run (memberName_run word after)]
  | true =>
    simp only [if_true, Bool.or_true]
    rw [bind_run (ahead_run s), next]
    simp only [Option.map_some, word]
    rw [bind_run (advance_run next), bind_run (memberName_run word after)]

theorem memberIndex_run {ls : List Lexeme} {e : Expr} (parses : ParsesExpression ls e)
    (optional : Bool) (reads : Reads s (.mark "[" :: (ls ++ [.mark "]"])) u) (deep : s.left ≤ n) :
    ∃ i, memberIndex (nested n) {} p optional s = some (.index p i optional, u) ∧
      i.lower = .ok e := by
  obtain ⟨t, opens, next, fewer, inner⟩ := reads.cons_mark
  obtain ⟨v, inner, tail⟩ := Reads.append_iff.1 inner
  obtain ⟨w, closes, after, -, done⟩ := tail.cons_mark
  rw [done.eq_of_nil]
  obtain ⟨i, read, lower⟩ := parses n inner (by rw [closes]; rfl) (by omega)
  refine ⟨i, ?_, lower⟩
  unfold memberIndex
  rw [bind_run (expectMark_hit opens next), Context.bracketed_default, bind_run read,
    bind_run (expectMark_hit closes after)]
  rfl

/-- A member access by index is one step of the loop over member accesses. -/
theorem memberRest_index {ls : List Lexeme} {e : Expr} (parses : ParsesExpression ls e)
    (optional : Bool)
    (reads : Reads s ((if optional then [.mark "?."] else []) ++ .mark "[" :: (ls ++ [.mark "]"])) u)
    (deep : s.left ≤ n) :
    ∃ i, memberRest (nested n) {} (members + 1) p inChain s
        = memberRest (nested n) {} members (.index p i optional) (inChain || optional) u ∧
      i.lower = .ok e := by
  cases optional with
  | false =>
    obtain ⟨t, opens, -⟩ := Reads.cons_mark reads
    obtain ⟨i, read, lower⟩ := memberIndex_run (p := p) parses false reads deep
    refine ⟨i, ?_, lower⟩
    rw [memberRest, bind_run (token_run s), opens]
    simp only [Bool.false_eq_true, if_false, Bool.or_false]
    rw [bind_run read]
  | true =>
    obtain ⟨t, point, next, fewer, later⟩ := Reads.cons_mark reads
    obtain ⟨_, opens, -⟩ := later.cons_mark
    obtain ⟨i, read, lower⟩ := memberIndex_run (n := n) (p := p) parses true later (by omega)
    refine ⟨i, ?_, lower⟩
    rw [memberRest, bind_run (token_run s), point]
    simp only
    rw [bind_run (ahead_run s), next]
    simp only [Option.map_some, opens, Bool.false_eq_true, if_false, Bool.or_true]
    rw [bind_run (advance_run next), bind_run read]

/-- The loop over member accesses ends at what starts none. -/
theorem memberRest_stop (template : ∀ text last, s.token ≠ .template text last)
    (other : ∀ m ∈ [".", "["], s.token ≠ .mark m)
    (optional : s.token = .mark "?." → s.next?.map Stream.token = some (.mark "(")) :
    memberRest r {} (members + 1) p inChain s = some ((p, inChain), s) := by
  rw [memberRest, bind_run (token_run s)]
  cases token : s.token with
  | template text last => exact absurd token (template text last)
  | mark m =>
    by_cases link : m = "?."
    · subst link
      simp only
      rw [bind_run (ahead_run s), optional token]
      rfl
    · have point : m ≠ "." := fun same => other "." (by decide) (by rw [token, same])
      have bracket : m ≠ "[" := fun same => other "[" (by decide) (by rw [token, same])
      simp [point, bracket, link, pure_run]
  | _ => rfl

/-- A call is one step of the loop over calls. -/
theorem linksFrom_call {parts : Expr → List Lexeme} {es : List Expr}
    (each : ∀ e ∈ es, ParsesElement (parts e) e) (optional : Bool)
    (reads : Reads s ((if optional then [.mark "?."] else []) ++
      .mark "(" :: (withCommas (es.map parts) ++ [.mark ")"])) u) (deep : s.left ≤ n) :
    ∃ as, linksFrom (nested n) (calls + 1) (members + 1) p inChain s
        = linksFrom (nested n) calls u.fuel (.call p as optional) (inChain || optional) u ∧
      Phrase.lowerArguments as = .ok es := by
  cases optional with
  | false =>
    obtain ⟨t, opens, -⟩ := Reads.cons_mark reads
    obtain ⟨as, read, lower⟩ := arguments_run each n reads deep
    refine ⟨as, ?_, lower⟩
    have stop : memberRest (nested n) {} (members + 1) p inChain s = some ((p, inChain), s) :=
      memberRest_stop (by simp [opens]) (by simp [opens]) (by simp [opens])
    unfold linksFrom
    rw [bind_run stop]
    simp only
    unfold callsAfter
    rw [bind_run (skipMark_miss (by simp [opens]))]
    simp only [Bool.false_eq_true, if_false]
    rw [bind_run (atMark_run "(" s), opens]
    simp only [beq_self_eq_true, if_true, Bool.or_false]
    rw [bind_run read]
    exact callRest_eq ..
  | true =>
    obtain ⟨t, point, next, fewer, later⟩ := Reads.cons_mark reads
    obtain ⟨_, opens, -⟩ := later.cons_mark
    obtain ⟨as, read, lower⟩ := arguments_run each n later (by omega)
    refine ⟨as, ?_, lower⟩
    have stop : memberRest (nested n) {} (members + 1) p inChain s = some ((p, inChain), s) :=
      memberRest_stop (by simp [point]) (by simp [point]) (by simp [next, opens])
    unfold linksFrom
    rw [bind_run stop]
    simp only
    unfold callsAfter
    rw [bind_run (skipMark_hit point next)]
    simp only [if_true]
    rw [bind_run (atMark_run "(" t), opens]
    simp only [beq_self_eq_true, if_true, Bool.or_true]
    rw [bind_run read]
    exact callRest_eq ..

/-- The loops end before a token that stands after an operand. -/
theorem linksFrom_stop (settles : s.token.settles 14) :
    linksFrom r calls (members + 1) p inChain s = some ((p, inChain), s) := by
  have stop : memberRest r {} (members + 1) p inChain s = some ((p, inChain), s) := by
    apply memberRest_stop
    · exact fun text last => Token.ne_of_settles settles rfl
    · intro m member
      refine Token.ne_of_settles settles ?_
      simp only [List.mem_cons, List.not_mem_nil, or_false] at member
      rcases member with rfl | rfl <;> rfl
    · exact fun same => absurd same (Token.ne_of_settles settles rfl)
  have optional : s.token ≠ .mark "?." := Token.ne_of_settles settles rfl
  have parens : s.token ≠ .mark "(" := Token.ne_of_settles settles rfl
  unfold linksFrom
  rw [bind_run stop]
  simp only
  unfold callsAfter
  rw [bind_run (skipMark_miss optional)]
  simp only [Bool.false_eq_true, if_false]
  rw [bind_run (atMark_run "(" s), beq_false_of_ne parens]
  rfl

end

namespace ParsesOperand

variable {ls : List Lexeme} {e : Expr}

/-- A member access by name extends an operand. -/
theorem member (parses : ParsesOperand ls e) (w : String) (optional : Bool) :
    ParsesOperand (ls ++ [.mark (if optional then "?." else "."), .word w])
      (.member e (.identifier w) false optional) := by
  intro n s u reads deep
  obtain ⟨v, first, tail⟩ := Reads.append_iff.1 reads
  obtain ⟨t, point, next, fewer, tail⟩ := tail.cons_mark
  obtain ⟨x, word, after, fewer', done⟩ := tail.cons_plain rfl
  rw [done.eq_of_nil]
  obtain ⟨p, inChain, calls, members, reached, enough, enough', lower, term, link⟩ :=
    parses n first deep
  obtain ⟨members, rfl⟩ : ∃ m, members = m + 1 := ⟨members - 1, by omega⟩
  refine ⟨.member p w optional, inChain || optional, calls, members, ?_, by omega, by omega,
    by simp [Phrase.lower, lower, bind, Except.bind, pure, Except.pure], rfl, fun _ => rfl⟩
  rw [reached]
  exact bind_congr_run (memberRest_name optional point next word after)

/-- A member access by index extends an operand. -/
theorem index (parses : ParsesOperand ls e) {is : List Lexeme} {i : Expr}
    (parsesIndex : ParsesExpression is i) (optional : Bool) :
    ParsesOperand (ls ++ ((if optional then [.mark "?."] else []) ++
        .mark "[" :: (is ++ [.mark "]"])))
      (.member e i true optional) := by
  intro n s u reads deep
  obtain ⟨v, first, tail⟩ := Reads.append_iff.1 reads
  have before := first.left_le
  have after := tail.left_le
  simp only [List.length_append, List.length_cons, List.length_nil] at after
  obtain ⟨p, inChain, calls, members, reached, enough, enough', lower, term, link⟩ :=
    parses n first deep
  obtain ⟨members, rfl⟩ : ∃ m, members = m + 1 := ⟨members - 1, by omega⟩
  obtain ⟨q, step, lowerIndex⟩ :=
    memberRest_index (p := p) parsesIndex optional tail (n := n) (by omega)
  refine ⟨.index p q optional, inChain || optional, calls, members, ?_, by omega, by omega,
    by simp [Phrase.lower, lower, lowerIndex, bind, Except.bind, pure, Except.pure], rfl,
    fun _ => rfl⟩
  rw [reached]
  exact bind_congr_run step

/-- A call extends an operand. -/
theorem call (parses : ParsesOperand ls e) {parts : Expr → List Lexeme} {es : List Expr}
    (each : ∀ e ∈ es, ParsesElement (parts e) e) (optional : Bool) :
    ParsesOperand (ls ++ ((if optional then [.mark "?."] else []) ++
        .mark "(" :: (withCommas (es.map parts) ++ [.mark ")"])))
      (.call e es optional) := by
  intro n s u reads deep
  obtain ⟨v, first, tail⟩ := Reads.append_iff.1 reads
  have before := first.left_le
  have after := tail.left_le
  simp only [List.length_append, List.length_cons, List.length_nil] at after
  obtain ⟨p, inChain, calls, members, reached, enough, enough', lower, term, link⟩ :=
    parses n first deep
  obtain ⟨members, rfl⟩ : ∃ m, members = m + 1 := ⟨members - 1, by omega⟩
  obtain ⟨calls, rfl⟩ : ∃ c, calls = c + 1 := ⟨calls - 1, by omega⟩
  -- A call takes a step of the outer loop, and starts the inner one anew.
  obtain ⟨as, step, lowerArguments⟩ := linksFrom_call each optional tail (n := n) (by omega)
  refine ⟨.call p as optional, inChain || optional, calls, u.fuel, ?_, by omega, u.left_lt_fuel,
    by simp [Phrase.lower, lower, lowerArguments, bind, Except.bind, pure, Except.pure], rfl,
    fun _ => rfl⟩
  rw [reached, step]

/-- **An operand ends** before a token that stands after one. -/
theorem operand_run (parses : ParsesOperand ls e) (n : Nat) {s u : Stream} (reads : Reads s ls u)
    (settles : u.token.settles 14) (deep : s.left ≤ n) :
    ∃ p, operand (nested n) {} s = some (p, u) ∧ p.lower = .ok e ∧ p.isTerm := by
  obtain ⟨p, inChain, calls, members, reached, -, enough, lower, term, link⟩ := parses n reads deep
  obtain ⟨members, rfl⟩ : ∃ m, members = m + 1 := ⟨members - 1, by omega⟩
  rw [linksFrom_stop settles] at reached
  have run : operand (nested n) {} s = some (if inChain then .chain p else p, u) := by
    have same : operand (nested n) {} = links (nested n) >>= fun q =>
        pure (if q.2 then .chain q.1 else q.1) := by
      simp [operand, links]
    rw [same, bind_run reached]
    rfl
  cases inChain with
  | false => exact ⟨p, run, lower, term⟩
  | true => exact ⟨.chain p, run, by simpa [Phrase.lower, link rfl] using lower, rfl⟩

end ParsesOperand

end MiniTemplate.Script
