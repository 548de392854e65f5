import Mathlib.Data.List.Infix
import Mathlib.Data.List.TakeWhile
import MiniTemplate.Interpolation

/-!
# The segments of an interpolated text

A text is cut at its bindings: a literal, and then for each binding its expression, the closing
braces that spill over its end, and the literal after it. `Layout.Segments` says which cuts count,
by the places of braces alone and without the functions that look for them. A text with a binding
has exactly one such layout, and `detect` spells the text by it; `detect_spells_layout` is the
main result.
-/

namespace MiniTemplate

/-! ## Places in a text -/

/-- The braces that open a binding. -/
def opening : List Char := ['\x7b', '\x7b']

/-- The braces that close a binding. -/
def closing : List Char := ['\x7d', '\x7d']

/-- A mark stands at a place of a text. -/
def StandsAt (mark text : List Char) (i : Nat) : Prop := mark <+: text.drop i

/-- **A complete binding**: opening braces, and closing braces at least one character after them. -/
def HoldsBinding (text : List Char) : Prop :=
  ∃ i j, StandsAt opening text i ∧ StandsAt closing text j ∧ i + 3 ≤ j

@[simp] theorem standsAt_nil {x y : Char} {i : Nat} : ¬ StandsAt [x, y] [] i := by
  simp [StandsAt]

theorem standsAt_zero {x y c : Char} {text : List Char} :
    StandsAt [x, y] (c :: text) 0 ↔ c = x ∧ text.head? = some y := by
  cases text with
  | nil => simp [StandsAt]
  | cons d text => simp [StandsAt, eq_comm]

/-- A place after some text, counted from there. -/
theorem standsAt_append_iff {mark before text : List Char} {i : Nat} :
    StandsAt mark (before ++ text) (before.length + i) ↔ StandsAt mark text i := by
  rw [StandsAt, StandsAt, List.drop_length_add_append]

/-! ## Closing braces -/

namespace Piece

theorem close?_closing (rest : List Char) : close? (closing ++ rest) = some ([], rest) := rfl

theorem close?_cons {c : Char} {text : List Char} (other : ¬ StandsAt closing (c :: text) 0) :
    close? (c :: text) = (close? text).map fun (body, rest) => (c :: body, rest) := by
  rw [close?]
  rintro rest rfl rfl
  exact other (List.prefix_append closing rest)

/-- Closing braces are found unless there are none. -/
theorem close?_eq_none_iff {text : List Char} :
    close? text = none ↔ ∀ j, ¬ StandsAt closing text j := by
  induction text with
  | nil => simp [close?, closing]
  | cons c text ih =>
    by_cases here : StandsAt closing (c :: text) 0
    · constructor
      · intro absent
        obtain ⟨rest, whole⟩ := here
        rw [List.drop_zero] at whole
        rw [← whole, close?_closing] at absent
        cases absent
      · intro absent
        exact absurd here (absent 0)
    · rw [close?_cons here, Option.map_eq_none_iff, ih]
      constructor
      · intro absent j
        cases j with
        | zero => exact here
        | succ j => exact absent j
      · intro absent j
        exact absent (j + 1)

/-- **Closing braces are the first of a text** iff none stand before them. -/
theorem close?_eq_some_iff {text body rest : List Char} :
    close? text = some (body, rest) ↔
      text = body ++ (closing ++ rest) ∧ ∀ j, StandsAt closing text j → body.length ≤ j := by
  induction text generalizing body with
  | nil => simp [close?, closing]
  | cons c text ih =>
    by_cases here : StandsAt closing (c :: text) 0
    · constructor
      · intro found
        obtain ⟨after, whole⟩ := here
        rw [List.drop_zero] at whole
        rw [← whole, close?_closing] at found
        cases found
        exact ⟨whole.symm, fun j _ => Nat.zero_le j⟩
      · rintro ⟨whole, first⟩
        obtain rfl : body = [] := List.length_eq_zero_iff.1 (Nat.le_zero.1 (first 0 here))
        rw [whole]
        rfl
    · rw [close?_cons here, Option.map_eq_some_iff]
      constructor
      · rintro ⟨⟨later, after⟩, found, same⟩
        cases same
        obtain ⟨rfl, first⟩ := ih.1 found
        refine ⟨rfl, fun j stands => ?_⟩
        cases j with
        | zero => exact absurd stands here
        | succ j => exact Nat.succ_le_succ (first j stands)
      · rintro ⟨whole, first⟩
        cases body with
        | nil =>
          rw [whole] at here
          exact absurd (List.prefix_append closing rest) here
        | cons d body =>
          obtain ⟨rfl, rfl⟩ := List.cons.inj whole
          refine ⟨(body, rest), ih.2 ⟨rfl, fun j stands => ?_⟩, rfl⟩
          exact Nat.le_of_succ_le_succ (first (j + 1) stands)

/-! ## The first binding -/

/-- The body of a binding reaches to the first closing braces that leave it a character. -/
theorem body?_eq_none_iff {text : List Char} :
    body? text = none ↔ ∀ j, 1 ≤ j → ¬ StandsAt closing text j := by
  cases text with
  | nil => simp [body?, closing]
  | cons c text =>
    rw [body?, Option.map_eq_none_iff, close?_eq_none_iff]
    constructor
    · intro absent j positive
      obtain ⟨j, rfl⟩ := Nat.exists_eq_add_of_le' positive
      exact absent j
    · intro absent j
      exact absent (j + 1) (Nat.le_add_left 1 j)

theorem body?_eq_some_iff {text body rest : List Char} :
    body? text = some (body, rest) ↔ text = body ++ (closing ++ rest) ∧ body ≠ [] ∧
      ∀ j, 1 ≤ j → StandsAt closing text j → body.length ≤ j := by
  cases text with
  | nil => simp [body?, closing]
  | cons c text =>
    rw [body?, Option.map_eq_some_iff]
    constructor
    · rintro ⟨⟨later, after⟩, found, same⟩
      cases same
      obtain ⟨rfl, first⟩ := close?_eq_some_iff.1 found
      refine ⟨rfl, List.cons_ne_nil c later, fun j positive stands => ?_⟩
      obtain ⟨j, rfl⟩ := Nat.exists_eq_add_of_le' positive
      exact Nat.succ_le_succ (first j stands)
    · rintro ⟨whole, solid, first⟩
      obtain ⟨d, body, rfl⟩ := List.exists_cons_of_ne_nil solid
      obtain ⟨rfl, rfl⟩ := List.cons.inj whole
      refine ⟨(body, rest), close?_eq_some_iff.2 ⟨rfl, fun j stands => ?_⟩, rfl⟩
      exact Nat.le_of_succ_le_succ (first (j + 1) (Nat.le_add_left 1 j) stands)

theorem open?_opening (text : List Char) :
    open? (opening ++ text) = (body? text).map fun (body, rest) => ([], body, rest) := rfl

theorem open?_cons {c : Char} {text : List Char} (other : ¬ StandsAt opening (c :: text) 0) :
    open? (c :: text)
      = (open? text).map fun (before, body, rest) => (c :: before, body, rest) := by
  rw [open?]
  rintro rest rfl rfl
  exact other (List.prefix_append opening rest)

/-- After opening braces, closing braces count from the third character on. -/
theorem holdsBinding_opening {text : List Char} :
    HoldsBinding (opening ++ text) ↔ ∃ j, 1 ≤ j ∧ StandsAt closing text j := by
  constructor
  · rintro ⟨i, j, -, closes, apart⟩
    obtain ⟨k, rfl⟩ : ∃ k, j = opening.length + k := ⟨j - 2, by simp [opening]; omega⟩
    refine ⟨k, ?_, standsAt_append_iff.1 closes⟩
    simp [opening] at apart
    omega
  · rintro ⟨j, positive, closes⟩
    refine ⟨0, opening.length + j, List.prefix_append opening text, standsAt_append_iff.2 closes, ?_⟩
    simp [opening]
    omega

theorem holdsBinding_cons {c : Char} {text : List Char} (other : ¬ StandsAt opening (c :: text) 0) :
    HoldsBinding (c :: text) ↔ HoldsBinding text := by
  constructor
  · rintro ⟨i, j, opens, closes, apart⟩
    cases i with
    | zero => exact absurd opens other
    | succ i =>
      obtain ⟨j, rfl⟩ : ∃ k, j = k + 1 := ⟨j - 1, by omega⟩
      exact ⟨i, j, opens, closes, by omega⟩
  · rintro ⟨i, j, opens, closes, apart⟩
    exact ⟨i + 1, j + 1, opens, closes, by omega⟩

/-- **A binding is found** unless there is none. -/
theorem open?_eq_none_iff {text : List Char} : open? text = none ↔ ¬ HoldsBinding text := by
  induction text with
  | nil => simp [open?, HoldsBinding, opening]
  | cons c text ih =>
    by_cases here : StandsAt opening (c :: text) 0
    · obtain ⟨after, whole⟩ := here
      rw [List.drop_zero] at whole
      rw [← whole, open?_opening, Option.map_eq_none_iff, body?_eq_none_iff, holdsBinding_opening]
      simp
    · rw [open?_cons here, Option.map_eq_none_iff, ih, holdsBinding_cons here]

/-- Opening braces stand within a text that a brace goes on, or right at its start. -/
theorem infix_cons_brace {c : Char} {text : List Char} :
    opening <:+: c :: (text ++ ['\x7b']) ↔
      (c = '\x7b' ∧ (text ++ ['\x7b']).head? = some '\x7b') ∨ opening <:+: text ++ ['\x7b'] := by
  rw [List.infix_cons_iff]
  refine or_congr_left ?_
  exact standsAt_zero

/-- **The first binding of a text**: what stands before it holds no opening braces, not even
together with its own first brace, and it ends at the earliest closing braces that leave it a
character. -/
theorem open?_eq_some_iff {text before body rest : List Char} :
    open? text = some (before, body, rest) ↔
      text = before ++ (opening ++ (body ++ (closing ++ rest))) ∧
      ¬ opening <:+: before ++ ['\x7b'] ∧ body ≠ [] ∧
      ∀ j, 1 ≤ j → StandsAt closing (body ++ (closing ++ rest)) j → body.length ≤ j := by
  induction text generalizing before with
  | nil => simp [open?, opening]
  | cons c text ih =>
    by_cases here : StandsAt opening (c :: text) 0
    · obtain ⟨after, whole⟩ := here
      rw [List.drop_zero] at whole
      rw [← whole, open?_opening, Option.map_eq_some_iff]
      constructor
      · rintro ⟨⟨inside, later⟩, found, same⟩
        cases same
        obtain ⟨rfl, solid, first⟩ := body?_eq_some_iff.1 found
        exact ⟨rfl, by simp [opening, List.infix_cons_iff], solid, first⟩
      · rintro ⟨same, plain, solid, first⟩
        -- A literal before the braces would hold the first of them.
        obtain rfl : before = [] := by
          cases before with
          | nil => rfl
          | cons d before =>
            obtain ⟨rfl, later⟩ := List.cons.inj same
            refine absurd (infix_cons_brace.2 (.inl ⟨rfl, ?_⟩)) plain
            cases before with
            | nil => rfl
            | cons e before => exact congrArg List.head? later.symm
        have same : after = body ++ (closing ++ rest) := List.append_cancel_left same
        exact ⟨(body, rest), body?_eq_some_iff.2 ⟨same, solid, same ▸ first⟩, rfl⟩
    · rw [open?_cons here, Option.map_eq_some_iff]
      constructor
      · rintro ⟨⟨earlier, inside, later⟩, found, same⟩
        cases same
        obtain ⟨rfl, plain, solid, first⟩ := ih.1 found
        refine ⟨rfl, ?_, solid, first⟩
        rw [List.cons_append, infix_cons_brace]
        rintro (⟨rfl, next⟩ | later)
        · refine here (standsAt_zero.2 ⟨rfl, ?_⟩)
          cases earlier with
          | nil => rfl
          | cons e earlier => exact next
        · exact plain later
      · rintro ⟨whole, plain, solid, first⟩
        cases before with
        | nil =>
          rw [whole] at here
          exact absurd (List.prefix_append opening _) here
        | cons d before =>
          obtain ⟨rfl, rfl⟩ := List.cons.inj whole
          rw [List.cons_append, infix_cons_brace, not_or] at plain
          exact ⟨(before, body, rest), ih.2 ⟨rfl, plain.2, solid, first⟩, rfl⟩

end Piece

/-! ## Layouts -/

/-- A binding of a text, with the number of closing braces that spill over its end and the literal
after those. -/
structure Cut where
  body : List Char
  spill : Nat
  after : List Char

namespace Cut

/-- What a binding stands for: its body with the braces that spilled over. -/
def expression (c : Cut) : List Char := c.body ++ List.replicate c.spill '\x7d'

/-- The text from the opening braces of a binding to the next binding. -/
def text (c : Cut) : List Char :=
  opening ++ (c.body ++ (closing ++ (List.replicate c.spill '\x7d' ++ c.after)))

/-- The text of the bindings, and of the literals between and after them. -/
def join (cuts : List Cut) : List Char := cuts.flatMap text

/-- **The cuts after a literal are those of the text**: no literal before a binding holds opening
braces, not even together with the first brace of that binding; a binding has a body, and is closed
by the earliest braces that stand three characters or more after its start; no literal after
a binding begins with a closing brace; and the last literal holds no binding. -/
inductive Exact : List Char → List Cut → Prop where
  | last {literal : List Char} (none : ¬ HoldsBinding literal) : Exact literal []
  | next {literal : List Char} {c : Cut} {rest : List Cut}
      (plain : ¬ opening <:+: literal ++ ['\x7b']) (solid : c.body ≠ [])
      (earliest : ∀ j, 3 ≤ j → StandsAt closing (c.text ++ join rest) j → 2 + c.body.length ≤ j)
      (stops : c.after.head? ≠ some '\x7d') (later : Exact c.after rest) :
      Exact literal (c :: rest)

end Cut

/-- A text in parts: the literal before its first binding, and its bindings with the literals
after them. -/
structure Layout where
  literal : List Char
  cuts : List Cut

namespace Layout

/-- The text that a layout divides. -/
def text (l : Layout) : List Char := l.literal ++ Cut.join l.cuts

/-- A literal as a quoted string, unless it is empty. -/
def literalSource (literal : List Char) : List (List Char) :=
  if literal = [] then [] else [Text.quoted literal]

/-- A binding as an expression in parentheses, without the blanks around it. -/
def bindingSource (c : Cut) : List Char := '(' :: (Text.trim c.expression ++ [')'])

/-- The parts of a layout as operands, in order. -/
def sources (l : Layout) : List (List Char) :=
  literalSource l.literal
    ++ l.cuts.flatMap fun c => bindingSource c :: literalSource c.after

/-- **A layout of a text with bindings.** -/
structure Segments (l : Layout) (raw : List Char) : Prop where
  text : l.text = raw
  bound : l.cuts ≠ []
  exact : Cut.Exact l.literal l.cuts

end Layout

namespace Cut

theorem text_append (c : Cut) (rest : List Char) :
    c.text ++ rest
      = opening ++ (c.body ++ (closing ++ (List.replicate c.spill '\x7d' ++ (c.after ++ rest)))) := by
  simp only [text, List.append_assoc]

theorem join_cons (c : Cut) (rest : List Cut) : join (c :: rest) = c.text ++ join rest :=
  List.flatMap_cons

/-- Places of closing braces from the start of a binding, and from the start of its body. -/
theorem earliest_iff {body rest : List Char} :
    (∀ j, 3 ≤ j → StandsAt closing (opening ++ (body ++ rest)) j → 2 + body.length ≤ j) ↔
      ∀ j, 1 ≤ j → StandsAt closing (body ++ rest) j → body.length ≤ j := by
  constructor
  · intro first j positive stands
    have later := first (2 + j) (by omega) (standsAt_append_iff.2 stands)
    omega
  · intro first j third stands
    obtain ⟨k, rfl⟩ : ∃ k, j = 2 + k := ⟨j - 2, by omega⟩
    have later := first k (by omega) (standsAt_append_iff.1 stands)
    omega

/-- **The step**: the first of exact cuts is the first binding of the text, and the text goes on
after the braces that spilled over. -/
theorem Exact.open?_eq {literal : List Char} {c : Cut} {rest : List Cut}
    (exact : Exact literal (c :: rest)) :
    Piece.open? (literal ++ join (c :: rest))
      = some (literal, c.body, List.replicate c.spill '\x7d' ++ (c.after ++ join rest)) := by
  cases exact with
  | next plain solid earliest stops later =>
    rw [text_append, earliest_iff] at earliest
    rw [Piece.open?_eq_some_iff, join_cons, text_append]
    exact ⟨rfl, plain, solid, earliest⟩

/-- No closing brace follows those that spilled over. -/
theorem Exact.head?_ne {literal : List Char} {cuts : List Cut} (exact : Exact literal cuts)
    (stops : literal.head? ≠ some '\x7d') : (literal ++ join cuts).head? ≠ some '\x7d' := by
  cases literal with
  | cons d literal => exact stops
  | nil =>
    cases exact with
    | last => exact stops
    | next => simp [join_cons, text, opening]

theorem takeWhile_spill {rest : List Char} (stops : rest.head? ≠ some '\x7d') (k : Nat) :
    (List.replicate k '\x7d' ++ rest).takeWhile (· == '\x7d') = List.replicate k '\x7d' ∧
      (List.replicate k '\x7d' ++ rest).dropWhile (· == '\x7d') = rest := by
  induction k with
  | zero =>
    cases rest with
    | nil => exact ⟨rfl, rfl⟩
    | cons c rest =>
      have other : (c == '\x7d') = false := by simpa using stops
      simp [other]
  | succ k ih => simpa [List.replicate_succ] using ih

/-- **Exact cuts are determined by the text.** -/
theorem Exact.unique {literal other : List Char} {cuts others : List Cut}
    (exact : Exact literal cuts) (exact' : Exact other others)
    (same : literal ++ join cuts = other ++ join others) : literal = other ∧ cuts = others := by
  induction exact generalizing other others with
  | @last literal none =>
    have absent : Piece.open? (literal ++ join []) = .none := by
      rw [join, List.flatMap_nil, List.append_nil, Piece.open?_eq_none_iff]
      exact none
    cases exact' with
    | last => exact ⟨by simpa [join] using same, rfl⟩
    | next plain solid earliest stops later =>
      rw [same, (Exact.next plain solid earliest stops later).open?_eq] at absent
      cases absent
  | @next literal c rest plain solid earliest stops later ih =>
    have found := (Exact.next plain solid earliest stops later).open?_eq
    rw [same] at found
    cases exact' with
    | last none =>
      rw [join, List.flatMap_nil, List.append_nil, Piece.open?_eq_none_iff.2 none] at found
      cases found
    | @next _ d rest' plain' solid' earliest' stops' later' =>
      rw [(Exact.next plain' solid' earliest' stops' later').open?_eq] at found
      simp only [Option.some.injEq, Prod.mk.injEq] at found
      obtain ⟨rfl, body, tail⟩ := found
      have spilled := takeWhile_spill (later.head?_ne stops) c.spill
      have spilled' := takeWhile_spill (later'.head?_ne stops') d.spill
      rw [tail] at spilled'
      have count : c.spill = d.spill := by
        simpa using congrArg List.length (spilled.1.symm.trans spilled'.1)
      obtain ⟨after, rfl⟩ := ih later' (spilled.2.symm.trans spilled'.2)
      refine ⟨rfl, congrArg (· :: rest) ?_⟩
      cases c
      cases d
      simp_all

end Cut

namespace Layout

/-- **Every text has an exact layout.** -/
theorem exists_exact (raw : List Char) : ∃ l : Layout, l.text = raw ∧ Cut.Exact l.literal l.cuts := by
  generalize size : raw.length = n
  induction n using Nat.strongRecOn generalizing raw with
  | ind n ih =>
    subst size
    cases found : Piece.open? raw with
    | none => exact ⟨⟨raw, []⟩, List.append_nil raw, .last (Piece.open?_eq_none_iff.1 found)⟩
    | some parts =>
      obtain ⟨before, body, rest⟩ := parts
      obtain ⟨rfl, plain, solid, first⟩ := Piece.open?_eq_some_iff.1 found
      -- What is left after the braces that spilled over is shorter, and begins with none.
      obtain ⟨k, after, rfl, stops⟩ : ∃ k after, rest = List.replicate k '\x7d' ++ after ∧
          after.head? ≠ some '\x7d' := by
        refine ⟨(rest.takeWhile (· == '\x7d')).length, rest.dropWhile (· == '\x7d'), ?_, ?_⟩
        · have braces : rest.takeWhile (· == '\x7d')
              = List.replicate (rest.takeWhile (· == '\x7d')).length '\x7d' := by
            rw [List.eq_replicate_iff]
            refine ⟨rfl, fun c member => ?_⟩
            simpa using List.mem_takeWhile_imp member
          rw [← braces, List.takeWhile_append_dropWhile]
        · intro begins
          have head := List.head?_dropWhile_not (· == '\x7d') rest
          rw [begins] at head
          cases head
      obtain ⟨m, rfl, exact⟩ := ih after.length (by simp [opening, closing]; omega) after rfl
      refine ⟨⟨before, ⟨body, k, m.literal⟩ :: m.cuts⟩, ?_, .next plain solid ?_ ?_ exact⟩
      · simp only [text, Cut.join_cons, Cut.text, List.append_assoc]
      · rw [Cut.text_append, Cut.earliest_iff]
        exact first
      · intro begins
        apply stops
        rw [text, List.head?_append, begins]
        rfl

/-- The pieces that the parts of a layout are. -/
def pieces (l : Layout) : List Piece :=
  Piece.ofLiteral l.literal
    ++ l.cuts.flatMap fun c =>
      .binding c.body (List.replicate c.spill '\x7d') :: Piece.ofLiteral c.after

theorem splitWithin_of_exact {literal : List Char} {cuts : List Cut} (exact : Cut.Exact literal cuts)
    {fuel : Nat} (enough : (literal ++ Cut.join cuts).length ≤ fuel) :
    Piece.splitWithin fuel (literal ++ Cut.join cuts) = pieces ⟨literal, cuts⟩ := by
  induction exact generalizing fuel with
  | @last literal none =>
    rw [pieces, Cut.join, List.flatMap_nil, List.append_nil, List.flatMap_nil, List.append_nil]
    cases fuel with
    | zero => rfl
    | succ fuel => rw [Piece.splitWithin, Piece.open?_eq_none_iff.2 none]
  | @next literal c rest plain solid earliest stops later ih =>
    have spilled := Cut.takeWhile_spill (later.head?_ne stops) c.spill
    rw [Cut.join_cons, Cut.text_append] at enough
    simp only [List.length_append, opening, closing, List.length_cons] at enough
    obtain ⟨fuel, rfl⟩ : ∃ f, fuel = f + 1 := ⟨fuel - 1, by omega⟩
    have left : (c.after ++ Cut.join rest).length ≤ fuel := by
      rw [List.length_append]
      omega
    have below := ih left
    rw [Piece.splitWithin, (Cut.Exact.next plain solid earliest stops later).open?_eq]
    simp only [spilled.1, spilled.2, below]
    simp [pieces]

theorem split_of_exact {l : Layout} (exact : Cut.Exact l.literal l.cuts) :
    Piece.split l.text = l.pieces :=
  splitWithin_of_exact exact (Nat.le_refl _)

theorem any_isBinding_pieces (l : Layout) : l.pieces.any Piece.isBinding = !l.cuts.isEmpty := by
  have literals (text : List Char) : (Piece.ofLiteral text).any Piece.isBinding = false := by
    unfold Piece.ofLiteral
    split <;> rfl
  rw [pieces, List.any_append, literals]
  cases l.cuts with
  | nil => rfl
  | cons c rest => simp [Piece.isBinding]

theorem map_source_pieces (l : Layout) : l.pieces.map Piece.source = l.sources := by
  have literals (text : List Char) :
      (Piece.ofLiteral text).map Piece.source = literalSource text := by
    unfold Piece.ofLiteral literalSource
    cases text <;> rfl
  rw [pieces, sources, List.map_append, literals, List.map_flatMap]
  simp only [List.map_cons, literals]
  rfl

end Layout

theorem joinWithPlus_eq_intercalate (sources : List (List Char)) :
    joinWithPlus sources = ['+'].intercalate sources := by
  match sources with
  | [] => rfl
  | [s] => simp [joinWithPlus]
  | s :: t :: rest =>
    have later := joinWithPlus_eq_intercalate (t :: rest)
    rw [joinWithPlus, later, List.intercalate_cons_cons]
    · simp
    · simp

/-- What is found in a text, by a layout of it. -/
theorem detect_of_exact {raw : String} {l : Layout} (text : l.text = raw.toList)
    (exact : Cut.Exact l.literal l.cuts) :
    detect raw = if l.cuts = [] then ⟨false, raw⟩
      else ⟨true, String.ofList (['+'].intercalate l.sources)⟩ := by
  rw [detect, ← text, Layout.split_of_exact exact, Layout.any_isBinding_pieces,
    Layout.map_source_pieces, joinWithPlus_eq_intercalate]
  cases l.cuts <;> rfl

/-- A text holds a binding iff its layout has one. -/
theorem Cut.Exact.holdsBinding_iff {literal : List Char} {cuts : List Cut}
    (exact : Cut.Exact literal cuts) : HoldsBinding (literal ++ Cut.join cuts) ↔ cuts ≠ [] := by
  rw [← not_iff_not, ← Piece.open?_eq_none_iff, not_not]
  cases cuts with
  | nil =>
    cases exact with
    | last none => simpa [Cut.join, Piece.open?_eq_none_iff] using none
  | cons c rest => simp [exact.open?_eq]

/-- **A text is spelled by its layout**: it has a binding iff opening braces and closing braces
stand far enough apart in it; if it has, there is exactly one layout of it, and the text stands
for the parts of that layout joined by plus signs; otherwise it stands for itself. -/
theorem detect_spells_layout (raw : String) :
    ((detect raw).hasBinding = true ↔
      ∃ i j, StandsAt opening raw.toList i ∧ StandsAt closing raw.toList j ∧ i + 3 ≤ j) ∧
    ((detect raw).hasBinding = false → (detect raw).normalized = raw) ∧
    ((detect raw).hasBinding = true → ∃ l : Layout, l.Segments raw.toList ∧
      (detect raw).normalized = String.ofList (['+'].intercalate l.sources) ∧
      ∀ m : Layout, m.Segments raw.toList → m = l) := by
  obtain ⟨l, text, exact⟩ := Layout.exists_exact raw.toList
  have places : HoldsBinding raw.toList ↔ l.cuts ≠ [] := by
    rw [← text]
    exact exact.holdsBinding_iff
  rw [detect_of_exact text exact]
  by_cases bare : l.cuts = []
  · rw [if_pos bare]
    refine ⟨?_, fun _ => rfl, (fun absent => by cases absent)⟩
    rw [← HoldsBinding, places]
    simp [bare]
  · rw [if_neg bare]
    refine ⟨?_, (fun absent => by cases absent), fun _ => ⟨l, ⟨text, bare, exact⟩, rfl, ?_⟩⟩
    · rw [← HoldsBinding, places]
      simp [bare]
    · rintro ⟨literal, cuts⟩ other
      obtain ⟨same, sameCuts⟩ := other.exact.unique exact (other.text.trans text.symm)
      cases l
      cases same
      cases sameCuts
      rfl

/-- A text in which braces run on: a body that begins with a brace, one that is a brace, and
opening braces that nothing closes. -/
def bracesRunOn : String :=
  "\x7b\x7b\x7ba\x7d\x7d\x7d\x7d-\x7b\x7b\x7d\x7d\x7d\x7b\x7b b \x7d\x7d\x7b\x7b\x7d\x7d"

theorem bracesRunOn_layout :
    (detect bracesRunOn).hasBinding = true ∧
      (detect bracesRunOn).normalized = "(\x7ba\x7d\x7d)+\"-\"+(\x7d)+(b)+\"\x7b\x7b\x7d\x7d\"" ∧
      ∃ l : Layout, l.Segments bracesRunOn.toList ∧
        (detect bracesRunOn).normalized = String.ofList (['+'].intercalate l.sources) := by
  have bound : (detect bracesRunOn).hasBinding = true := by decide +kernel
  obtain ⟨l, segments, spelled, -⟩ := (detect_spells_layout bracesRunOn).2.2 bound
  exact ⟨bound, by decide +kernel, l, segments, spelled⟩

end MiniTemplate
