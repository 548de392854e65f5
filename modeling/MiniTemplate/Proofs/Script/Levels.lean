import Mathlib.Data.List.Forall2
import MiniTemplate.Proofs.Script.Reading
import MiniTemplate.Script.Parse

/-!
# Levels of expressions

What may stand after an expression and what starts one, in terms of tokens, and what it
means that lexemes are read as a tree at the two levels that other rules refer to: with the
comma operator and without it. A rule of the grammar is followed from the stream at its
first lexeme to the stream after its last one. The lists in brackets are read by one loop,
`Parser.separated`, whose items are parameters here.
-/

namespace MiniTemplate.Script

open MiniTemplate.Script.Parser

/-! ## What follows an expression -/

/-- How tightly a token binds what stands before it: not at all, as the comma operator
does, as a conditional does, or as a binary operator of some precedence does. No other
token stands after a whole operand. -/
def Token.pull (t : Token) : Option Nat :=
  match binaryOperator? {} t with
  | some (_, precedence) => some (precedence + 2)
  | none =>
    match t with
    | .finish => some 0
    | .mark m =>
      if [")", "]", "\x7d", ":"].contains m then some 0
      else if m == "," then some 1
      else if m == "?" then some 2
      else none
    | _ => none

/-- Whether a token stands after an operand, and binds it no tighter than `k`. -/
def Token.settles (k : Nat) (t : Token) : Bool := t.pull.any fun pull => decide (pull ≤ k)

namespace Token

variable {t other : Token} {j k : Nat}

theorem settles_mono (settles : t.settles j) (le : j ≤ k) : t.settles k := by
  cases pull : t.pull with
  | none => simp [Token.settles, pull] at settles
  | some w =>
    simp only [Token.settles, pull, Option.any_some, decide_eq_true_eq] at settles ⊢
    omega

theorem ne_of_settles (settles : t.settles k) (differs : other.settles k = false) : t ≠ other := by
  rintro rfl
  simp [differs] at settles

/-- Whether a token starts an operand: a name, a literal, a template, an array, an object or
parentheses. -/
def startsOperandOf : Token → Bool
  | .word w _ => !(["async", "await", "yield", "typeof", "void", "delete"].contains w)
  | .mark m => ["(", "[", "\x7b"].contains m
  | .number (.double _) | .string _ | .template .. => true
  | _ => false

end Token

/-- The unary operators. -/
def unaryOperators : List String := ["+", "-", "~", "!", "typeof", "void", "delete"]

/-- Whether a token starts an expression: it starts an operand, or is a unary operator. -/
def Token.startsExpression (t : Token) : Bool :=
  t.startsOperandOf ||
    match t with
    | .mark m => unaryOperators.contains m
    | .word w _ => unaryOperators.contains w
    | _ => false

/-- **How lexemes start**: with a token that starts an expression, and a parenthesis is
followed by another one, so that it opens no parameters. -/
def Begins (starts : Token → Bool) (ls : List Lexeme) : Prop :=
  ∃ l rest, ls = l :: rest ∧ l.resumes = false ∧ starts l.token ∧
    (l = .mark "(" → ∃ m more, rest = m :: more ∧ m.resumes = false ∧ m.token.startsExpression)

theorem Begins.append {starts : Token → Bool} {ls : List Lexeme} (begins : Begins starts ls)
    (more : List Lexeme) : Begins starts (ls ++ more) := by
  obtain ⟨l, rest, rfl, plain, first, parens⟩ := begins
  refine ⟨l, rest ++ more, rfl, plain, first, fun same => ?_⟩
  obtain ⟨m, others, rfl, inner⟩ := parens same
  exact ⟨m, others ++ more, rfl, inner⟩

theorem Begins.token {starts : Token → Bool} {ls : List Lexeme} {s u : Stream}
    (begins : Begins starts ls) (reads : Reads s ls u) : starts s.token := by
  obtain ⟨l, rest, rfl, plain, first, -⟩ := begins
  obtain ⟨t, token, -⟩ := reads.cons_plain plain
  rw [token]
  exact first

theorem Begins.expression {ls : List Lexeme} (begins : Begins Token.startsOperandOf ls) :
    Begins Token.startsExpression ls := by
  obtain ⟨l, rest, same, plain, first, parens⟩ := begins
  exact ⟨l, rest, same, plain, by simp [Token.startsExpression, first], parens⟩

/-! ## The levels of expressions -/

theorem Context.bracketed_default : Context.bracketed {} = {} := rfl

theorem Context.enclosed_default : Context.enclosed {} = {} := rfl

/-- Lexemes are read as a tree, with the comma operator. -/
def ParsesExpression (ls : List Lexeme) (e : Expr) : Prop :=
  ∀ (n : Nat) ⦃s u : Stream⦄, Reads s ls u → u.token.settles 0 → s.left < n →
    ∃ p, expression (nested n) {} s = some (p, u) ∧ p.lower = .ok e

/-- Lexemes are read as a tree, without the comma operator. -/
def ParsesAssignment (ls : List Lexeme) (e : Expr) : Prop :=
  ∀ (n : Nat) ⦃s u : Stream⦄, Reads s ls u → u.token.settles 1 → s.left ≤ n →
    ∃ p, assignment (nested n) {} s = some (p, u) ∧ p.lower = .ok e

theorem ParsesAssignment.nested_run {ls : List Lexeme} {e : Expr} (parses : ParsesAssignment ls e)
    (n : Nat) {s u : Stream} (reads : Reads s ls u) (settles : u.token.settles 1)
    (deep : s.left < n) : ∃ p, (nested n).assignment {} s = some (p, u) ∧ p.lower = .ok e := by
  obtain ⟨n, rfl⟩ : ∃ m, n = m + 1 := ⟨n - 1, by omega⟩
  exact parses n reads settles (by omega)

/-! ## Lists in brackets -/

/-- Lexemes divided by commas. -/
def withCommas : List (List Lexeme) → List Lexeme
  | [] => []
  | [ls] => ls
  | ls :: rest => ls ++ .mark "," :: withCommas rest

/-- How one item of a list is read: a comma follows it, or the list's end if the item has
lexemes of its own. -/
def ParsesItem {α β : Type} (close : String) (item : Parser α) (parts : β → List Lexeme)
    (yields : α → β → Prop) (bound : Nat) (b : β) : Prop :=
  ∀ ⦃s u : Stream⦄, Reads s (parts b) u →
    u.token = .mark "," ∨ u.token = .mark close ∧ parts b ≠ [] → s.left ≤ bound →
    s.token ≠ .mark close ∧ ∃ a, item s = some (a, u) ∧ yields a b

/-- What follows an item ends an expression without the comma operator. -/
theorem Token.settles_of_follows {t : Token} {close : String} {solid : Prop}
    (follows : t = .mark "," ∨ t = .mark close ∧ solid) (closing : (Token.mark close).settles 1) :
    t.settles 1 := by
  rcases follows with comma | ⟨closes, -⟩
  · rw [comma]
    rfl
  · rw [closes]
    exact closing

section
variable {α β : Type} {close : String} {item : Parser α} {parts : β → List Lexeme}
  {yields : α → β → Prop} {bound : Nat}

section
variable {s v w u : Stream} {a : α} {fuel : Nat} (opens : s.token ≠ .mark close)
  (read : item s = some (a, v))
include opens read

theorem separated_last (closes : v.token = .mark close) (next : v.next? = some u) :
    separated close item (fuel + 1) s = some (([a], false), u) := by
  unfold separated
  rw [bind_run (skipMark_miss opens)]
  simp only [Bool.false_eq_true, if_false]
  rw [bind_run read, bind_run (skipMark_hit closes next)]
  rfl

variable (apart : close ≠ ",") (comma : v.token = .mark ",") (after : v.next? = some w)
include apart comma after

theorem separated_comma (closes : w.token = .mark close) (next : w.next? = some u) :
    separated close item (fuel + 1) s = some (([a], true), u) := by
  have open' : v.token ≠ .mark close := by simpa [comma] using apart.symm
  unfold separated
  rw [bind_run (skipMark_miss opens)]
  simp only [Bool.false_eq_true, if_false]
  rw [bind_run read, bind_run (skipMark_miss open')]
  simp only [Bool.false_eq_true, if_false]
  rw [bind_run (expectMark_hit comma after), bind_run (skipMark_hit closes next)]
  rfl

theorem separated_more (goes : w.token ≠ .mark close) {as : List α} {last : Bool}
    (later : separated close item fuel w = some ((as, last), u)) :
    separated close item (fuel + 1) s = some ((a :: as, last), u) := by
  have open' : v.token ≠ .mark close := by simpa [comma] using apart.symm
  unfold separated
  rw [bind_run (skipMark_miss opens)]
  simp only [Bool.false_eq_true, if_false]
  rw [bind_run read, bind_run (skipMark_miss open')]
  simp only [Bool.false_eq_true, if_false]
  rw [bind_run (expectMark_hit comma after), bind_run (skipMark_miss goes)]
  simp only [Bool.false_eq_true, if_false]
  rw [bind_run later]
  rfl

end

/-- **The items of a list**, with a comma after the last one or without it. An item without
lexemes can only be the last one before a comma. -/
theorem separated_run (apart : close ≠ ",") (comma : Bool) :
    ∀ {bs : List β}, (∀ b ∈ bs, ParsesItem close item parts yields bound b) →
      (if comma then bs ≠ [] else ∀ b ∈ bs.getLast?, parts b ≠ []) →
      ∀ (fuel : Nat) {s u : Stream},
        Reads s (withCommas (bs.map parts) ++ ((if comma then [.mark ","] else []) ++ [.mark close])) u →
        s.left ≤ bound → s.left < fuel →
        (bs ≠ [] → s.token ≠ .mark close) ∧
        ∃ as, separated close item fuel s = some ((as, comma), u) ∧ List.Forall₂ yields as bs := by
  intro bs
  -- The last item is a case of its own: only there may the list end.
  induction bs with
  | nil =>
    intro _ ends fuel s u reads within enough
    obtain ⟨fuel, rfl⟩ : ∃ f, fuel = f + 1 := ⟨fuel - 1, by omega⟩
    cases comma with
    | true => simp at ends
    | false =>
      obtain ⟨t, closing, next, -, done⟩ := reads.cons_mark
      rw [done.eq_of_nil]
      refine ⟨fun absent => absurd rfl absent, [], ?_, .nil⟩
      unfold separated
      rw [bind_run (skipMark_hit closing next)]
      rfl
  | cons b bs ih =>
    intro items ends fuel s u reads within enough
    obtain ⟨fuel, rfl⟩ : ∃ f, fuel = f + 1 := ⟨fuel - 1, by omega⟩
    have first := items b List.mem_cons_self
    cases bs with
    | nil =>
      obtain ⟨v, head, tail⟩ := Reads.append_iff.1 reads
      cases comma with
      | true =>
        obtain ⟨w, divides, after, -, tail⟩ := tail.cons_mark
        obtain ⟨x, closes, next, -, done⟩ := tail.cons_mark
        rw [done.eq_of_nil]
        obtain ⟨opens, a, read, yield⟩ := first head (.inl divides) within
        exact ⟨fun _ => opens, [a], separated_comma opens read apart divides after closes next,
          .cons yield .nil⟩
      | false =>
        obtain ⟨x, closes, next, -, done⟩ := tail.cons_mark
        rw [done.eq_of_nil]
        obtain ⟨opens, a, read, yield⟩ := first head (.inr ⟨closes, by simpa using ends⟩) within
        exact ⟨fun _ => opens, [a], separated_last opens read closes next, .cons yield .nil⟩
    | cons b' bs =>
      have layout : withCommas ((b :: b' :: bs).map parts)
          = parts b ++ .mark "," :: withCommas ((b' :: bs).map parts) := rfl
      rw [layout, List.append_assoc] at reads
      obtain ⟨v, head, tail⟩ := Reads.append_iff.1 reads
      obtain ⟨w, divides, after, fewer, tail⟩ := tail.cons_mark
      have before := head.left_le
      have rest : if comma then b' :: bs ≠ [] else ∀ b ∈ (b' :: bs).getLast?, parts b ≠ [] := by
        cases comma with
        | true => simp
        | false => simpa using ends
      obtain ⟨opens, a, read, yield⟩ := first head (.inl divides) within
      obtain ⟨goes, as, later, yields⟩ :=
        ih (fun c member => items c (List.mem_cons_of_mem _ member)) rest fuel tail
          (by omega) (by omega)
      exact ⟨fun _ => opens, a :: as,
        separated_more opens read apart divides after (goes (by simp)) later, .cons yield yields⟩

theorem list_run (apart : close ≠ ",") (comma : Bool) {bs : List β}
    (items : ∀ b ∈ bs, ParsesItem close item parts yields bound b)
    (ends : if comma then bs ≠ [] else ∀ b ∈ bs.getLast?, parts b ≠ []) {s u : Stream}
    (reads : Reads s
      (withCommas (bs.map parts) ++ ((if comma then [.mark ","] else []) ++ [.mark close])) u)
    (within : s.left ≤ bound) :
    ∃ as, list close item s = some ((as, comma), u) ∧ List.Forall₂ yields as bs := by
  obtain ⟨-, as, read, yield⟩ :=
    separated_run apart comma items ends s.fuel reads within s.left_lt_fuel
  exact ⟨as, read, yield⟩

end

end MiniTemplate.Script
