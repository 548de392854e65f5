import MiniTemplate.Proofs.Interpolation
import MiniTemplate.Proofs.Nesting
import MiniTemplate.Proofs.Script.Course
import MiniTemplate.Proofs.Script.Suffix

/-!
# What is left of a text

`Script.Opens text e rest` says that a text is an expression with the tree `e`, then blanks and
comments, and then `rest`; a text is one whole expression if that rest is empty
(`Script.IsExpression`). The parser takes an expression from the start of a text as far as it goes.
Where the text is one whole expression, it is read to its end; elsewhere the parser is content with
any token after the expression: a word, a second operand, a parenthesis that was never opened. All
beyond that token is dropped unread. A closing parenthesis too many ends an interpolated text in the
same way, and the literal text and the bindings after it are lost.
-/

namespace MiniTemplate.Script

/-! ## The beginning of a text -/

theorem firstToken?_suffix {cs rest : List Char} {token : Token}
    (read : firstToken? cs = some (token, rest)) : rest <:+ cs := by
  obtain ⟨⟨newline, middle⟩, skipped, scanned⟩ := Option.bind_eq_some_iff.1 read
  exact (Token.leaves_scan? middle token rest scanned).trans (skips_of_skipGaps? skipped).suffix

theorem Starts.suffix {cs rest : List Char} {l : Symbol} (starts : Starts cs l rest) :
    rest <:+ cs := by
  cases starts with
  | plain first => exact firstToken?_suffix first
  | resumed brace read =>
    exact (Token.leaves_template? _ _ rest read).trans (firstToken?_suffix brace)
  | regularExpression slash known read =>
    exact (regularExpression?_suffix read).trans (firstToken?_suffix slash)

theorem Lexes.suffix {cs rest : List Char} {ls : List Symbol} (lexes : Lexes cs ls rest) :
    rest <:+ cs := by
  induction lexes with
  | done => exact List.suffix_rfl
  | next first _ ih => exact ih.trans first.suffix

/-- **A text is an expression, blanks and comments, and a rest.** -/
def Opens (text : List Char) (e : Expr) (rest : List Char) : Prop :=
  ∃ front gap ls, text = front ++ (gap ++ rest) ∧ Lexes text ls (gap ++ rest) ∧
    Denotes .expression ls e ∧ Skips (gap ++ rest) rest

/-- **A text is one whole expression.** -/
def IsExpression (text : String) : Prop := ∃ e, Opens text.toList e []

theorem readsTo_of_parse {text : String} {e : Expr} (parsed : parse text = .ok e) :
    ∃ last, ReadsTo text e last := by
  obtain ⟨p, found, lower⟩ := parse_ok_iff.1 parsed
  obtain ⟨start, started, found⟩ := Option.bind_eq_some_iff.1 found
  obtain ⟨⟨q, last⟩, read, found⟩ := Option.bind_eq_some_iff.1 found
  dsimp only at found
  split at found
  · cases found
  · rename_i clean
    cases found
    simp only [Bool.or_eq_true, bne_iff_ne, ne_eq, not_or, Decidable.not_not,
      Bool.not_eq_true] at clean
    exact ⟨last, start, p, started, read, lower, clean⟩

/-- **What is read is the symbols of an expression**, taken as far as it goes. -/
theorem ReadsTo.division {text : String} {e : Expr} {last : Stream} (reads : ReadsTo text e last) :
    ∃ ls after newline rest, Lexes text.toList ls after ∧ Denotes .expression ls e ∧
      skipGaps? false .blank after = some (newline, rest) ∧
      Token.scan? rest = some (last.token, last.rest) ∧ last.token.continuesExpression = false := by
  obtain ⟨start, p, started, read, lower, -, unset⟩ := reads
  obtain ⟨ls, passed, denoted⟩ :=
    Parser.tells_expression (nested_tells (depthBound text.toList)) {} start p last read
  obtain ⟨after, lexes, stands⟩ := passed.text _ (Stream.stands_of_next? started)
  obtain ⟨⟨newline, rest⟩, skipped, scanned⟩ := Option.bind_eq_some_iff.1 stands
  have plain : p.initialisers = 0 := by
    have owed := passed.unset
    omega
  have ends := ends_expression _ start p last read ⟨e, lower⟩
  exact ⟨ls, after, newline, rest, lexes, denoted e ⟨lower, plain⟩, skipped, scanned, ends⟩

/-- **What is left of a text is nothing exactly if the text is one whole expression**: no other way
to divide the text goes further than the parser. -/
theorem ReadsTo.remainder {text : String} {e : Expr} {last : Stream} (reads : ReadsTo text e last) :
    ∃ rest, Opens text.toList e rest ∧ Token.scan? rest = some (last.token, last.rest) ∧
      last.token.continuesExpression = false ∧ (rest = [] ↔ IsExpression text) := by
  obtain ⟨ls, after, newline, rest, lexes, denoted, skipped, scanned, ends⟩ := reads.division
  have skips := skips_of_skipGaps? skipped
  have opens : Opens text.toList e rest := by
    obtain ⟨front, whole⟩ := lexes.suffix
    obtain ⟨gap, rfl⟩ := skips.suffix
    exact ⟨front, gap, ls, whole.symm, lexes, denoted, skips⟩
  refine ⟨rest, opens, scanned, ends, fun empty => ⟨e, empty ▸ opens⟩, ?_⟩
  rintro ⟨a, front, gap, ms, -, lexes', denoted', skips'⟩
  obtain ⟨newline', skipped'⟩ := skipGaps?_of_skips skips' (fun _ => rfl) false
  have stops : ¬ Continued after := by
    rintro ⟨token, beyond, found, continues⟩
    simp only [firstToken?, skipped, scanned, Option.bind_eq_bind, Option.bind_some] at found
    cases found
    rw [ends] at continues
    cases continues
  have stops' : ¬ Continued (gap ++ []) := by
    rintro ⟨token, beyond, found, continues⟩
    simp only [firstToken?, skipped', Option.bind_eq_bind, Option.bind_some] at found
    cases found
    exact absurd continues (by decide)
  obtain ⟨-, rfl⟩ := denoted.same_symbols lexes lexes' denoted' stops stops'
  rw [skipped] at skipped'
  cases skipped'
  rfl

/-- A text that is left before its end is no whole expression. -/
theorem ReadsTo.not_isExpression {text : String} {e : Expr} {last : Stream}
    (reads : ReadsTo text e last) (early : last.token ≠ .finish) : ¬ IsExpression text := by
  obtain ⟨rest, -, scanned, -, whole⟩ := reads.remainder
  intro expression
  rw [whole.2 expression] at scanned
  exact early (congrArg Prod.fst (Option.some.inj scanned)).symm

/-! ## Texts that go on -/

theorem scan?_closer {c : Char} (closes : c ∈ closers) (beyond : List Char) :
    Token.scan? (c :: beyond) = some (.mark (String.ofList [c]), beyond) := by
  simp only [closers, List.mem_cons, List.not_mem_nil, or_false] at closes
  rcases closes with rfl | rfl | rfl | rfl
  · refine scan?_mark (m := ")") (by decide) fun d _ => ?_
    simp [goesOn, punctuators, List.isPrefixOf]
  · refine scan?_mark (m := "]") (by decide) fun d _ => ?_
    simp [goesOn, punctuators, List.isPrefixOf]
  · exact scan?_mark (m := "\x7d") (by decide) fun d _ => goesOn_brace d
  · refine scan?_mark (m := ":") (by decide) fun d _ => ?_
    simp [goesOn, punctuators, List.isPrefixOf]

/-- **An expression is parsed whatever follows the character that closes it**, and with that the
text is no whole expression. -/
theorem parse_of_spells_closed {ls : List Lexeme} {e : Expr} {cs : List Char} {text : String}
    (valid : AllValid ls) (parses : ParsesExpression ls e) (spells : Spells ls cs) {c : Char}
    (closes : c ∈ closers) {beyond : List Char} (whole : text.toList = cs ++ c :: beyond) :
    parse text = .ok e ∧ ¬ IsExpression text := by
  have solid : closers.all (fun c => !isSpace c && c != '/') := by decide +kernel
  have settles : closers.all (fun c => (Token.mark (String.ofList [c])).settles 0) := by
    decide +kernel
  have here := List.all_eq_true.1 solid c closes
  simp only [Bool.and_eq_true, Bool.not_eq_true', bne_iff_ne, ne_eq] at here
  have stops : ∀ l ∈ ls, ∀ d ∈ (c :: beyond).head?, l.stopsBefore d := by
    intro l member d first
    obtain rfl : c = d := by simpa using first
    exact Lexeme.stopsBefore_closer (valid l member) closes
  have tight : ∀ newline, skipGaps? newline .blank (c :: beyond) = some (newline, c :: beyond) :=
    skipGaps?_of_not_space here.1 fun slash => (here.2 slash).elim
  obtain ⟨last, reads, hand⟩ := readsTo_of_spells valid parses spells (c :: beyond) whole stops tight
    (scan?_closer closes beyond) (by simp) (List.all_eq_true.1 settles c closes)
  exact ⟨reads.parse, reads.not_isExpression (by rw [hand]; simp)⟩

end MiniTemplate.Script

namespace MiniTemplate

open MiniTemplate.Script
open MiniTemplate.Text (isBlank trim)

/-! ## Interpolated texts -/

/-- Blanks before a closing parenthesis are trimmed off, and there are none after it. -/
theorem trim_append_paren (cs : List Char) (k : Nat) :
    trim (cs ++ ')' :: List.replicate k '\x7d')
      = cs.dropWhile isBlank ++ ')' :: List.replicate k '\x7d' := by
  have solid : isBlank ')' = false := by decide
  have braces : (List.replicate k '\x7d').rdropWhile isBlank = List.replicate k '\x7d' := by
    simp [List.rdropWhile, not_isBlank_brace]
  rw [trim_eq, dropWhile_append_solid solid, rdropWhile_append_solid solid, braces]

/-- The first binding of a text that starts with one, where a closing parenthesis ends it. -/
theorem split_closed {source : List Char} (apart : ¬ closing <:+: source) (tail : List Char) :
    ∃ k rest, Piece.split (opening ++ (source ++ [')'] ++ (closing ++ tail)))
      = .binding (source ++ [')']) (List.replicate k '\x7d') :: rest := by
  have closes : ClosesLast (source ++ [')'] ++ List.replicate 0 '\x7d') := by
    rw [List.replicate_zero, List.append_nil, closesLast_iff]
    intro before after whole
    have inside : closing <:+: source ++ [')'] := ⟨before, after, by rw [whole, List.append_assoc]⟩
    rcases List.infix_concat_iff.1 inside with ⟨front, ends⟩ | inside
    · have last := congrArg List.getLast? ends
      simp [closing] at last
    · exact (apart inside).elim
  have body :
      Piece.body? (source ++ [')'] ++ (closing ++ tail)) = some (source ++ [')'], tail) := by
    rw [Piece.body?_eq_some_iff]
    refine ⟨rfl, by simp, fun j _ stands => closes.earliest (fun before same => ?_) stands⟩
    have last := (List.append_inj' same rfl).2
    simp at last
  obtain ⟨k, spill⟩ : ∃ k, tail.takeWhile (· == '\x7d') = List.replicate k '\x7d' := by
    refine ⟨_, List.eq_replicate_of_mem fun c member => ?_⟩
    simpa using List.mem_takeWhile_imp member
  have step : (opening ++ (source ++ [')'] ++ (closing ++ tail))).length
      = (1 + (source ++ [')'] ++ (closing ++ tail)).length) + 1 := by
    rw [List.length_append, opening, List.length_cons, List.length_singleton]
    omega
  refine ⟨k, Piece.splitWithin (1 + (source ++ [')'] ++ (closing ++ tail)).length)
    (tail.dropWhile (· == '\x7d')), ?_⟩
  rw [Piece.split, step, Piece.splitWithin, Piece.open?_opening, body, ← spill]
  rfl

/-- **A closing parenthesis too many drops the rest of an interpolated text.** -/
theorem parse_detect_closed {e : Expr} (wellFormed : e.WellFormed) {source : String}
    (prints : e.Prints source) (apart : ¬ closing <:+: source.toList) (tail : String) :
    parse (detect ("\x7b\x7b" ++ source ++ ")\x7d\x7d" ++ tail)).normalized = .ok e ∧
      ¬ IsExpression (detect ("\x7b\x7b" ++ source ++ ")\x7d\x7d" ++ tail)).normalized := by
  obtain ⟨k, rest, split⟩ := split_closed apart tail.toList
  have layout : ("\x7b\x7b" ++ source ++ ")\x7d\x7d" ++ tail).toList
      = opening ++ (source.toList ++ [')'] ++ (closing ++ tail.toList)) := by
    simp [opening, closing]
  have normalized : ∃ more, (detect ("\x7b\x7b" ++ source ++ ")\x7d\x7d" ++ tail)).normalized.toList
      = '(' :: (source.toList.dropWhile isBlank ++ [')'])
        ++ (List.replicate k '\x7d' ++ ')' :: more) := by
    have trimmed := trim_append_paren source.toList k
    refine ⟨(rest.map Piece.source).flatMap ('+' :: ·), ?_⟩
    rw [detect, layout, split]
    simp only [List.any_cons, Piece.isBinding, Bool.true_or, if_true, String.toList_ofList,
      List.map_cons, Segment.joinWithPlus_cons, Piece.source]
    simp [trimmed]
  -- What stands after the parenthesis too many is a brace that spilled over, or the binding's own.
  obtain ⟨c, closes, beyond, whole⟩ : ∃ c ∈ closers, ∃ beyond, _ = _ ++ c :: beyond := by
    obtain ⟨more, normalized⟩ := normalized
    cases k with
    | zero => exact ⟨')', by decide, more, normalized⟩
    | succ k => exact ⟨'\x7d', by decide, List.replicate k '\x7d' ++ ')' :: more, normalized⟩
  have valid : AllValid (.mark "(" :: (e.lexemes ++ [.mark ")"])) := by
    have known : "(" ∈ punctuators ∧ ")" ∈ punctuators := by decide
    simp [wellFormed.allValid, known]
  have nothing : Spells [] [] := .done rfl
  have spells := (prints.dropWhile wellFormed.allValid).parens wellFormed.allValid nothing
  exact parse_of_spells_closed valid wellFormed.isRecovered.parens.expression spells closes whole

/-! ## The remainder -/

/-- **The parser takes an expression from the start of a text and leaves the rest.** What it accepts
is an expression, and a rest that starts with a token that does not continue it; there is no such
rest exactly if the text is one whole expression. That token is all that is asked for: behind a
character that closes the expression anything may stand, and so it may behind an interpolated
binding that closes a parenthesis too many, and such texts are never one whole expression. -/
theorem parse_leaves_remainder (text : String) (e : Expr) :
    (parse text = .ok e →
      ∃ rest token beyond, Opens text.toList e rest ∧ Token.scan? rest = some (token, beyond) ∧
        token.continuesExpression = false ∧ (rest = [] ↔ IsExpression text)) ∧
    (e.WellFormed → e.Prints text →
      (∀ c ∈ closers, ∀ beyond : String,
        parse (text ++ String.singleton c ++ beyond) = .ok e ∧
          ¬ IsExpression (text ++ String.singleton c ++ beyond)) ∧
      (¬ closing <:+: text.toList → ∀ tail : String,
        parse (detect ("\x7b\x7b" ++ text ++ ")\x7d\x7d" ++ tail)).normalized = .ok e ∧
          ¬ IsExpression (detect ("\x7b\x7b" ++ text ++ ")\x7d\x7d" ++ tail)).normalized)) := by
  refine ⟨fun parsed => ?_, fun wellFormed prints => ⟨fun c closes beyond => ?_, fun apart tail =>
    parse_detect_closed wellFormed prints apart tail⟩⟩
  · obtain ⟨last, reads⟩ := readsTo_of_parse parsed
    obtain ⟨rest, opens, scanned, ends, whole⟩ := reads.remainder
    exact ⟨rest, last.token, last.rest, opens, scanned, ends, whole⟩
  · have whole : (text ++ String.singleton c ++ beyond).toList
        = text.toList ++ c :: beyond.toList := by
      simp
    exact parse_of_spells_closed wellFormed.allValid wellFormed.isRecovered.expression prints closes
      whole

/-- A conditional in brackets that were never opened, before a quote that is never closed. -/
theorem choice_before_unread_quote :
    choiceTree.WellFormed ∧ choiceTree.Prints "c?\"x\":d" ∧ ']' ∈ closers ∧
      parse ("c?\"x\":d" ++ String.singleton ']' ++ " 'e") = .ok choiceTree ∧
      (∃ rest token beyond,
        Opens ("c?\"x\":d" ++ String.singleton ']' ++ " 'e").toList choiceTree rest ∧
          Token.scan? rest = some (token, beyond) ∧ token.continuesExpression = false ∧
          rest ≠ []) ∧
      pairTree.WellFormed ∧ pairTree.Prints "a,b" ∧ ¬ closing <:+: "a,b".toList ∧
      parse (detect ("\x7b\x7b" ++ "a,b" ++ ")\x7d\x7d" ++ " \x7b\x7bc\x7d\x7d")).normalized
        = .ok pairTree := by
  have choice : choiceTree.Prints "c?\"x\":d" := Expr.prints_printed wellFormed_choiceTree
  have pair : pairTree.Prints "a,b" := Expr.prints_printed wellFormed_pairTree
  have apart : ¬ closing <:+: "a,b".toList := by decide
  obtain ⟨parsed, early⟩ := ((parse_leaves_remainder "c?\"x\":d" choiceTree).2
    wellFormed_choiceTree choice).1 ']' (by decide) " 'e"
  obtain ⟨rest, token, beyond, opens, scanned, ends, whole⟩ :=
    (parse_leaves_remainder _ _).1 parsed
  have dropped := ((parse_leaves_remainder "a,b" pairTree).2 wellFormed_pairTree pair).2 apart
    " \x7b\x7bc\x7d\x7d"
  exact ⟨wellFormed_choiceTree, choice, by decide, parsed,
    ⟨rest, token, beyond, opens, scanned, ends, fun empty => early (whole.1 empty)⟩,
    wellFormed_pairTree, pair, apart, dropped.1⟩

/-! ## Texts that are no expression -/

/-- The symbols after a token that is known. -/
theorem Script.Lexes.of_first {cs after rest : List Char} {t token : Token} {ls : List Symbol}
    (lexes : Lexes cs (.plain t :: ls) rest) (first : firstToken? cs = some (token, after)) :
    t = token ∧ Lexes after ls rest := by
  cases lexes with
  | next starts later =>
    cases starts with
    | plain found =>
      rw [first] at found
      cases found
      exact ⟨rfl, later⟩

/-- A name is denoted by itself, and otherwise only in parentheses. -/
theorem Script.Denotes.of_identifier {ls : List Symbol} {w : String}
    (denoted : Denotes .expression ls (.identifier w)) :
    (∃ escaped, ls = [.plain (.word w escaped)]) ∨
      ∃ inner, ls = .mark "(" :: (inner ++ [.mark ")"]) ∧
        Denotes .expression inner (.identifier w) := by
  generalize same : Expr.identifier w = e at denoted
  cases denoted with
  | sequence => cases same
  | single alone =>
    cases alone with
    | conditional => cases same
    | operands alone =>
      cases alone with
      | joined =>
        unfold Expr.joined at same
        split at same <;> cases same
      | unary _ alone =>
        cases alone with
        | operand alone =>
          cases alone with
          | name escaped named =>
            cases same
            exact .inl ⟨escaped, rfl⟩
          | parens inside => exact .inr ⟨_, rfl, inside⟩
          | _ => cases same
        | _ => cases same

/-- Two names are read as the first of them, and literal text after a binding is lost when the
binding closes a parenthesis that it did not open. Neither text is an expression. -/
theorem second_word_is_dropped :
    (parse "a b" = .ok (.identifier "a") ∧ ¬ IsExpression "a b") ∧
      detect "\x7b\x7ba)\x7d\x7d text" = ⟨true, "(a))+\" text\""⟩ ∧
      parse "(a))+\" text\"" = .ok (.identifier "a") ∧ ¬ IsExpression "(a))+\" text\"" := by
  have word : firstToken? "a b".toList = some (.word "a" false, [' ', 'b']) := by decide +kernel
  have parsed : parse "a b" = .ok (.identifier "a") :=
    parse_ok_iff.2 ⟨.name "a", phrase?_of_sameLinks (by decide +kernel), rfl⟩
  have wellFormed : (Expr.identifier "a").WellFormed := .identifier (by decide +kernel)
  have prints : (Expr.identifier "a").Prints "a" := Expr.prints_printed wellFormed
  have normalized : detect ("\x7b\x7b" ++ "a" ++ ")\x7d\x7d" ++ " text")
      = ⟨true, "(a))+\" text\""⟩ := by
    decide +kernel
  have dropped := parse_detect_closed wellFormed prints (by decide) " text"
  rw [normalized] at dropped
  refine ⟨⟨parsed, ?_⟩, normalized, dropped⟩
  obtain ⟨last, reads⟩ := readsTo_of_parse parsed
  obtain ⟨ls, after, newline, rest, lexes, denoted, skipped, scanned, -⟩ := reads.division
  rcases denoted.of_identifier with ⟨escaped, rfl⟩ | ⟨inner, rfl, -⟩
  · cases (lexes.of_first word).2
    have blank : skipGaps? false .blank [' ', 'b'] = some (false, ['b']) := by decide
    have second : Token.scan? ['b'] = some (.word "b" false, []) := by decide +kernel
    obtain rfl : ['b'] = rest := by
      rw [blank] at skipped
      exact congrArg Prod.snd (Option.some.inj skipped)
    rw [second] at scanned
    have hand : .word "b" false = last.token := congrArg Prod.fst (Option.some.inj scanned)
    exact reads.not_isExpression (by rw [← hand]; simp)
  · cases (lexes.of_first word).1

end MiniTemplate
