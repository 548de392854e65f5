import Mathlib.Data.List.DropRight
import MiniTemplate.Proofs.Segmentation

/-!
# Objects between double braces

A binding is closed by the first double brace after its start, and closing braces right after that
are given back to its expression. No braces are counted, so whether an object stays whole is a
matter of where its closing braces stand next to one another. `detect_object_iff` says when: exactly
if nothing but closing braces follows the first two of them that stand together. An inner object
that closes right before its outer one, with anything after the two, is cut
(`inner_object_is_cut`).
-/

namespace MiniTemplate

open Text (isBlank trim)

/-! ## Braces in a text -/

/-- **The braces of a text are balanced**: no beginning closes more than it opens, and all are
closed at the end. -/
def Balanced (e : List Char) : Prop :=
  (∀ before ∈ e.inits, before.count '\x7d' ≤ before.count '\x7b') ∧ e.count '\x7b' = e.count '\x7d'

instance (e : List Char) : Decidable (Balanced e) := inferInstanceAs (Decidable (_ ∧ _))

/-- Closing braces stand together only at the end of a text: nothing but more of them follows. -/
def ClosesLast (e : List Char) : Prop :=
  ∀ rest ∈ e.tails, closing <+: rest → ∀ c ∈ rest, c = '\x7d'

instance (e : List Char) : Decidable (ClosesLast e) :=
  decidable_of_iff (∀ rest ∈ e.tails, closing <+: rest → rest.all (· == '\x7d'))
    (by simp [ClosesLast])

theorem closesLast_iff {e : List Char} :
    ClosesLast e ↔ ∀ before after, e = before ++ (closing ++ after) → ∀ c ∈ after, c = '\x7d' := by
  constructor
  · rintro closes before after rfl c member
    refine closes (closing ++ after) ?_ (List.prefix_append _ _) c (by simp [member])
    exact (List.mem_tails _ _).2 (List.suffix_append _ _)
  · intro closes rest suffix begins c member
    obtain ⟨before, rfl⟩ := (List.mem_tails _ _).1 suffix
    obtain ⟨after, rfl⟩ := begins
    rcases List.mem_append.1 member with first | later
    · simpa [closing] using first
    · exact closes before after rfl c later

theorem Balanced.head?_ne {e : List Char} (balanced : Balanced e) : e.head? ≠ some '\x7d' := by
  intro begins
  obtain ⟨rest, rfl⟩ := List.head?_eq_some_iff.1 begins
  have first := balanced.1 ['\x7d'] (by simp)
  exact absurd first (by decide)

theorem replicate_append_closing (k : Nat) :
    List.replicate k '\x7d' ++ closing = closing ++ List.replicate k '\x7d' := by
  have braces : closing = List.replicate 2 '\x7d' := rfl
  rw [braces, List.replicate_append_replicate, List.replicate_append_replicate, Nat.add_comm]

/-! ## Blanks around a text -/

theorem not_isBlank_brace : isBlank '\x7d' = false := by decide

theorem trim_eq (cs : List Char) : trim cs = (cs.dropWhile isBlank).rdropWhile isBlank := rfl

theorem dropWhile_append_solid {c : Char} (solid : isBlank c = false) (cs rest : List Char) :
    (cs ++ c :: rest).dropWhile isBlank = cs.dropWhile isBlank ++ c :: rest := by
  rw [List.dropWhile_append]
  split
  · rename_i blank
    rw [List.isEmpty_iff.1 blank, List.dropWhile_cons_of_neg (by simp [solid])]
    rfl
  · rfl

theorem rdropWhile_append_solid {c : Char} (solid : isBlank c = false) (cs rest : List Char) :
    (cs ++ c :: rest).rdropWhile isBlank = cs ++ c :: rest.rdropWhile isBlank := by
  have turned : (cs ++ c :: rest).reverse = rest.reverse ++ c :: cs.reverse := by simp
  rw [List.rdropWhile, turned, dropWhile_append_solid solid]
  simp [List.rdropWhile]

/-- What is trimmed off a text are blanks, and a brace after them keeps them. -/
theorem trim_append_brace (cs rest : List Char) :
    ∃ gap more, (∀ c ∈ gap, isBlank c = true) ∧
      trim (cs ++ '\x7d' :: rest) = trim cs ++ (gap ++ '\x7d' :: more) := by
  refine ⟨(cs.dropWhile isBlank).rtakeWhile isBlank, rest.rdropWhile isBlank,
    fun c member => List.mem_rtakeWhile_imp member, ?_⟩
  rw [trim_eq, dropWhile_append_solid not_isBlank_brace, rdropWhile_append_solid not_isBlank_brace,
    trim_eq, ← List.append_assoc, List.rdropWhile_append_rtakeWhile]

/-- A text in parentheses differs from the beginning of a longer one that goes on with a brace. -/
theorem trim_paren_ne (cs rest more : List Char) :
    trim cs ++ ')' :: more ≠ trim (cs ++ '\x7d' :: rest) ++ [')'] := by
  obtain ⟨gap, others, blank, trimmed⟩ := trim_append_brace cs rest
  rw [trimmed, List.append_assoc, List.append_assoc]
  intro same
  have same := List.append_cancel_left same
  cases gap with
  | nil => exact absurd (List.cons.inj same).1 (by decide)
  | cons c gap =>
    have blank := blank c List.mem_cons_self
    rw [← (List.cons.inj same).1] at blank
    exact absurd blank (by decide)

/-! ## The binding around an object -/

/-- The part of a text before the closing braces at its end. -/
theorem exists_trailing (e : List Char) :
    ∃ body k, e = body ++ List.replicate k '\x7d' ∧ ∀ before, body ≠ before ++ ['\x7d'] := by
  induction e using List.reverseRecOn with
  | nil => exact ⟨[], 0, rfl, by simp⟩
  | append_singleton e c ih =>
    by_cases brace : c = '\x7d'
    · obtain ⟨body, k, rfl, open'⟩ := ih
      refine ⟨body, k + 1, ?_, open'⟩
      rw [brace, List.replicate_succ', List.append_assoc]
    · refine ⟨e ++ [c], 0, by simp, fun before same => brace ?_⟩
      simpa using (List.append_inj' same rfl).2

/-- Where closing braces stand together only at the end, none stand together before that. -/
theorem ClosesLast.earliest {body : List Char} {k : Nat}
    (closes : ClosesLast (body ++ List.replicate k '\x7d'))
    (open' : ∀ before, body ≠ before ++ ['\x7d']) {rest : List Char} {j : Nat}
    (stands : StandsAt closing (body ++ rest) j) : body.length ≤ j := by
  by_contra short
  obtain ⟨after, whole⟩ := stands
  rw [List.drop_append_of_le_length (by omega)] at whole
  obtain ⟨before, split⟩ : ∃ before, body = before ++ body.drop j :=
    ⟨_, (List.take_append_drop j body).symm⟩
  cases remaining : body.drop j with
  | nil =>
    rw [List.drop_eq_nil_iff] at remaining
    omega
  | cons c tail =>
    rw [remaining] at whole split
    obtain ⟨rfl, later⟩ : '\x7d' = c ∧ '\x7d' :: after = tail ++ rest := List.cons.inj whole
    cases tail with
    | nil => exact open' _ split
    | cons d tail =>
      obtain ⟨rfl, -⟩ : '\x7d' = d ∧ after = tail ++ rest := List.cons.inj later
      -- All that follows the two braces are braces, so the body would end with one.
      have others := closesLast_iff.1 closes before (tail ++ List.replicate k '\x7d')
        (by simp [split, closing])
      rcases List.eq_nil_or_concat tail with rfl | ⟨inner, d, rfl⟩
      · exact open' (before ++ ['\x7d']) (by simp [split])
      · obtain rfl : d = '\x7d' := others d (by simp)
        exact open' (before ++ '\x7d' :: '\x7d' :: inner) (by simp [split])

/-- The text of a binding that holds a given text. -/
def bindingOf (e : List Char) : List Char := opening ++ (e ++ closing)

/-- **A text whose closing braces stand together only at its end is one binding.** -/
theorem exact_of_closesLast {e : List Char} (solid : e ≠ []) (begins : e.head? ≠ some '\x7d')
    (closes : ClosesLast e) :
    ∃ c : Cut, c.expression = e ∧ Cut.join [c] = bindingOf e ∧ c.after = [] ∧ Cut.Exact [] [c] := by
  obtain ⟨body, k, rfl, open'⟩ := exists_trailing e
  have text : (Cut.mk body k []).text = bindingOf (body ++ List.replicate k '\x7d') := by
    rw [bindingOf, List.append_assoc, replicate_append_closing]
    simp [Cut.text]
  have nonempty : body ≠ [] := by
    rintro rfl
    cases k with
    | zero => exact solid rfl
    | succ k => exact begins rfl
  refine ⟨⟨body, k, []⟩, rfl, by rw [Cut.join_cons, text]; simp [Cut.join], rfl, ?_⟩
  refine .next (by simp [opening, List.infix_cons_iff]) nonempty ?_ (by simp) (.last ?_)
  · rw [Cut.text_append, Cut.earliest_iff]
    intro j _ stands
    exact closes.earliest open' stands
  · simp [HoldsBinding, opening]

/-- The exact cuts of a binding start with one at its start. -/
theorem exact_bindingOf {e : List Char} (solid : e ≠ []) {l : Layout} (text : l.text = bindingOf e)
    (exact : Cut.Exact l.literal l.cuts) :
    l.literal = [] ∧ ∃ c rest, l.cuts = c :: rest ∧
      c.body ++ (closing ++ (List.replicate c.spill '\x7d' ++ (c.after ++ Cut.join rest)))
        = e ++ closing := by
  have holds : HoldsBinding (bindingOf e) := by
    rw [bindingOf, Piece.holdsBinding_opening]
    refine ⟨e.length, List.length_pos_iff.2 solid, ?_⟩
    have stands : StandsAt closing (e ++ closing) (e.length + 0) :=
      standsAt_append_iff.2 (List.prefix_refl closing)
    exact stands
  obtain ⟨literal, cuts⟩ := l
  rw [← text, Layout.text, exact.holdsBinding_iff] at holds
  obtain ⟨c, rest, rfl⟩ := List.exists_cons_of_ne_nil holds
  have plain : ¬ opening <:+: literal ++ ['\x7b'] := by
    cases exact with
    | next plain => exact plain
  rw [Layout.text, Cut.join_cons, Cut.text_append, bindingOf] at text
  obtain rfl : literal = [] := by
    cases literal with
    | nil => rfl
    | cons d literal =>
      obtain ⟨rfl, later⟩ := List.cons.inj text
      refine absurd (Piece.infix_cons_brace.2 (.inl ⟨rfl, ?_⟩)) plain
      cases literal with
      | nil => rfl
      | cons d literal => exact congrArg List.head? later
  exact ⟨rfl, c, rest, rfl, List.append_cancel_left text⟩

/-- A binding that ends before the text between its braces does is closed by braces of that text. -/
theorem exists_cut_off {e body tail : List Char} {k : Nat}
    (whole : body ++ (closing ++ (List.replicate k '\x7d' ++ tail)) = e ++ closing)
    (solid : tail ≠ []) (stops : tail.head? ≠ some '\x7d') :
    ∃ rest, e = body ++ List.replicate k '\x7d' ++ '\x7d' :: rest := by
  have ends : closing <:+ body ++ (closing ++ (List.replicate k '\x7d' ++ tail)) := by
    rw [whole]
    exact List.suffix_append e closing
  have later : tail <:+ body ++ (closing ++ (List.replicate k '\x7d' ++ tail)) := by
    rw [← List.append_assoc, ← List.append_assoc]
    exact List.suffix_append _ tail
  rcases List.suffix_or_suffix_of_suffix ends later with ⟨middle, rfl⟩ | short
  · refine ⟨'\x7d' :: middle, ?_⟩
    have same :
        body ++ (closing ++ (List.replicate k '\x7d' ++ middle)) ++ closing = e ++ closing := by
      rw [← whole]
      simp only [List.append_assoc]
    rw [← List.append_cancel_right same, ← List.append_assoc closing, ← replicate_append_closing]
    simp [closing]
  · obtain ⟨c, tail, rfl⟩ := List.exists_cons_of_ne_nil solid
    have brace : c ∈ closing := short.subset List.mem_cons_self
    obtain rfl : c = '\x7d' := by simpa [closing] using brace
    exact absurd rfl stops

/-- Something follows a binding that is not the whole of a text. -/
theorem exists_source_after {c : Cut} {rest : List Cut} (solid : c.after ++ Cut.join rest ≠ []) :
    ∃ more, ['+'].intercalate (Layout.mk [] (c :: rest)).sources
      = '(' :: (trim c.expression ++ ')' :: '+' :: more) := by
  have sources : (Layout.mk [] (c :: rest)).sources = Layout.bindingSource c ::
      (Layout.literalSource c.after ++
        rest.flatMap fun d => Layout.bindingSource d :: Layout.literalSource d.after) := by
    simp [Layout.sources, Layout.literalSource]
  rw [sources]
  cases others : Layout.literalSource c.after ++
      rest.flatMap fun d => Layout.bindingSource d :: Layout.literalSource d.after with
  | cons source more =>
    rw [List.intercalate_cons_cons]
    exact ⟨['+'].intercalate (source :: more), by simp [Layout.bindingSource]⟩
  | nil =>
    obtain ⟨literal, bindings⟩ := List.append_eq_nil_iff.1 others
    have after : c.after = [] := by
      by_contra present
      simp [Layout.literalSource, present] at literal
    cases rest with
    | nil => simp [after, Cut.join] at solid
    | cons d rest => simp at bindings

/-- **A text that is one binding closes its braces last**: braces that stand together are among
those given back to the expression. -/
theorem closesLast_of_earliest {body : List Char} {k : Nat}
    (begins : (body ++ List.replicate k '\x7d').head? ≠ some '\x7d')
    (earliest : ∀ j, 1 ≤ j →
      StandsAt closing (body ++ List.replicate k '\x7d' ++ closing) j → body.length ≤ j) :
    ClosesLast (body ++ List.replicate k '\x7d') := by
  refine closesLast_iff.2 fun before after whole c member => ?_
  have inside : body.length ≤ before.length := by
    refine earliest before.length ?_ ?_
    · cases before with
      | nil => exact absurd (congrArg List.head? whole) begins
      | cons => simp
    · have stands :
          StandsAt closing (before ++ (closing ++ (after ++ closing))) (before.length + 0) :=
        standsAt_append_iff.2 (List.prefix_append _ _)
      rw [whole]
      simpa using stands
  have begun : before <+: body ++ List.replicate k '\x7d' := whole ▸ List.prefix_append _ _
  obtain ⟨middle, rfl⟩ : body <+: before :=
    List.prefix_of_prefix_length_le (List.prefix_append _ _) begun inside
  rw [List.append_assoc] at whole
  have braces : c ∈ List.replicate k '\x7d' := by
    rw [List.append_cancel_left whole]
    simp [member]
  exact List.eq_of_mem_replicate braces

/-- **A text in double braces is one binding iff its closing braces stand together only at its
end.** -/
theorem detect_bindingOf_iff {e : List Char} (solid : e ≠ []) (begins : e.head? ≠ some '\x7d')
    {raw : String} (text : raw.toList = bindingOf e) :
    (detect raw).hasBinding = true ∧
      ((detect raw).normalized = String.ofList ('(' :: (trim e ++ [')'])) ↔ ClosesLast e) := by
  obtain ⟨⟨literal, cuts⟩, divided, exact⟩ := Layout.exists_exact raw.toList
  obtain ⟨rfl, c, rest, rfl, whole⟩ := exact_bindingOf solid (divided.trans text) exact
  have found := detect_of_exact divided exact
  rw [if_neg (by simp)] at found
  rw [found]
  refine ⟨rfl, fun same => ?_, fun closes => ?_⟩
  · have earliest : ∀ j, 1 ≤ j → StandsAt closing (e ++ closing) j → c.body.length ≤ j := by
      cases exact with
      | next _ _ earliest => rwa [Cut.text_append, Cut.earliest_iff, whole] at earliest
    have stops : (c.after ++ Cut.join rest).head? ≠ some '\x7d' := by
      cases exact with
      | next _ _ _ stops later => exact later.head?_ne stops
    by_cases last : c.after ++ Cut.join rest = []
    · rw [last, List.append_nil, ← replicate_append_closing, ← List.append_assoc] at whole
      obtain rfl : c.body ++ List.replicate c.spill '\x7d' = e := List.append_cancel_right whole
      exact closesLast_of_earliest begins earliest
    · obtain ⟨after, rfl⟩ := exists_cut_off whole last stops
      obtain ⟨more, spelled⟩ := exists_source_after last
      have same := String.ofList_injective same
      rw [spelled] at same
      exact absurd (List.cons.inj same).2 (trim_paren_ne _ _ _)
  · obtain ⟨d, expression, joined, after, exact'⟩ := exact_of_closesLast solid begins closes
    have same : [] ++ Cut.join [d] = [] ++ Cut.join (c :: rest) := by
      rw [List.nil_append, joined, ← text, ← divided, Layout.text]
    obtain ⟨-, unique⟩ := exact'.unique exact same
    obtain ⟨rfl, rfl⟩ := List.cons.inj unique
    simp [Layout.sources, Layout.literalSource, Layout.bindingSource, expression, after]

/-- **An object between double braces stays whole iff its closing braces stand together only at its
end.** For a text whose braces are balanced there is always a binding; it is the one segment
`(e)` exactly if nothing but closing braces follows the first two that stand together. -/
theorem detect_object_iff (e : String) (solid : e ≠ "") (balanced : Balanced e.toList) :
    (detect ("\x7b\x7b" ++ e ++ "\x7d\x7d")).hasBinding = true ∧
      ((detect ("\x7b\x7b" ++ e ++ "\x7d\x7d")).normalized
          = "(" ++ String.ofList (trim e.toList) ++ ")" ↔ ClosesLast e.toList) := by
  have text : ("\x7b\x7b" ++ e ++ "\x7d\x7d").toList = bindingOf e.toList := by
    simp [bindingOf, opening, closing]
  have nonempty : e.toList ≠ [] := by simpa using solid
  have segment : "(" ++ String.ofList (trim e.toList) ++ ")"
      = String.ofList ('(' :: (trim e.toList ++ [')'])) := by
    apply String.toList_injective
    simp
  rw [segment]
  exact detect_bindingOf_iff nonempty balanced.head?_ne text

/-- Objects in objects that all close together at the end. -/
def nestedObjects : String := " \x7ba: \x7bb: 1\x7d, c: \x7bd: \x7b\x7d\x7d\x7d"

theorem nestedObjects_stay_whole :
    Balanced nestedObjects.toList ∧ ClosesLast nestedObjects.toList ∧
      (detect ("\x7b\x7b" ++ nestedObjects ++ "\x7d\x7d")).normalized
        = "(" ++ String.ofList (trim nestedObjects.toList) ++ ")" := by
  have balanced : Balanced nestedObjects.toList := by decide +kernel
  have closes : ClosesLast nestedObjects.toList := by decide +kernel
  exact ⟨balanced, closes, (detect_object_iff _ (by decide) balanced).2.2 closes⟩

/-- An object that closes right before the one around it, and a blank after the two: the binding
ends inside the outer object, and what is left of it becomes literal text. -/
theorem inner_object_is_cut :
    Balanced " \x7ba: \x7bb: 1\x7d\x7d ".toList ∧
      detect "\x7b\x7b \x7ba: \x7bb: 1\x7d\x7d \x7d\x7d"
        = ⟨true, "(\x7ba: \x7bb: 1)+\" \x7d\x7d\""⟩ :=
  ⟨by decide, by decide +kernel⟩

end MiniTemplate
