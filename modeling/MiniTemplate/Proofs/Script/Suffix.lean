import Mathlib.Data.List.TakeDrop
import MiniTemplate.Proofs.Script.Lexeme

/-!
# Scanners leave the end of a text

Whatever a scanner reads, it reads from the start of a text, and what it leaves is an end of that
text (`Leaves`). There is one lemma for each scanner, and so one for tokens (`Token.leaves_scan?`).
What stands between tokens is spelled out as well: `Skips cs rest` says that `cs` is blanks and
comments, and `rest` after them.
-/

namespace MiniTemplate.Script

/-- **What a reading leaves is an end of the text.** -/
def Leaves {α : Type} (read : Option (α × List Char)) (cs : List Char) : Prop :=
  ∀ a rest, read = some (a, rest) → rest <:+ cs

namespace Leaves

variable {α β : Type} {cs ds rest : List Char}

theorem none : Leaves (none : Option (α × List Char)) cs := by
  rintro _ _ ⟨⟩

theorem some {a : α} (ends : rest <:+ cs) : Leaves (some (a, rest)) cs := by
  rintro _ _ ⟨⟩
  exact ends

theorem within {read : Option (α × List Char)} (leaves : Leaves read cs) (ends : cs <:+ ds) :
    Leaves read ds :=
  fun a rest done => (leaves a rest done).trans ends

theorem cons {read : Option (α × List Char)} (leaves : Leaves read cs) (c : Char) :
    Leaves read (c :: cs) :=
  leaves.within (List.suffix_cons c cs)

theorem bind {read : Option (α × List Char)} {f : α × List Char → Option (β × List Char)}
    (first : Leaves read cs) (next : ∀ a rest, Leaves (f (a, rest)) rest) :
    Leaves (read >>= f) cs := by
  intro b rest done
  obtain ⟨⟨a, middle⟩, before, after⟩ := Option.bind_eq_some_iff.1 done
  exact (next a middle b rest after).trans (first a middle before)

theorem map {read : Option (α × List Char)} {f : α × List Char → β × List Char}
    (first : Leaves read cs) (same : ∀ a rest, (f (a, rest)).2 = rest) :
    Leaves (read.map f) cs := by
  intro b rest done
  obtain ⟨⟨a, middle⟩, before, after⟩ := Option.map_eq_some_iff.1 done
  obtain rfl : rest = middle := by simpa [after] using same a middle
  exact first a rest before

end Leaves

/-! ## Numerals -/

namespace Numeral

theorem leaves_moreDigits? (isDigit : Char → Bool) (cs : List Char) :
    Leaves (moreDigits? isDigit cs) cs := by
  fun_induction moreDigits? isDigit cs with
  | case1 => exact .some List.suffix_rfl
  | case2 => exact .none
  | case3 d cs digit ih => exact ((ih.map fun _ _ => rfl).cons d).cons '_'
  | case4 => exact .none
  | case5 c cs _ _ digit ih => exact (ih.map fun _ _ => rfl).cons c
  | case6 => exact .some List.suffix_rfl

theorem leaves_digits? (isDigit : Char → Bool) (cs : List Char) :
    Leaves (digits? isDigit cs) cs := by
  fun_cases digits? isDigit cs with
  | case1 c cs digit => exact ((leaves_moreDigits? isDigit cs).map fun _ _ => rfl).cons c
  | case2 => exact .none
  | case3 => exact .none

theorem leaves_optionalDigits? (cs : List Char) : Leaves (optionalDigits? cs) cs := by
  fun_cases optionalDigits? cs with
  | case1 => exact leaves_digits? _ _
  | case2 => exact .some List.suffix_rfl
  | case3 => exact .some List.suffix_rfl

theorem leaves_exponent? (cs : List Char) : Leaves (exponent? cs) cs := by
  fun_cases exponent? cs with
  | case1 cs => exact ((leaves_digits? _ cs).map fun _ _ => rfl).cons '-'
  | case2 cs => exact ((leaves_digits? _ cs).map fun _ _ => rfl).cons '+'
  | case3 => exact (leaves_digits? _ cs).map fun _ _ => rfl

theorem leaves_optionalExponent? (cs : List Char) : Leaves (optionalExponent? cs) cs := by
  fun_cases optionalExponent? cs with
  | case1 cs => exact (leaves_exponent? cs).cons 'e'
  | case2 cs => exact (leaves_exponent? cs).cons 'E'
  | case3 => exact .some List.suffix_rfl

theorem leaves_ended? (value : Numeral) (rest : List Char) : Leaves (ended? value rest) rest := by
  fun_cases ended? value rest with
  | case1 => exact .none
  | case2 => exact .some List.suffix_rfl
  | case3 => exact .some List.suffix_rfl

theorem leaves_fraction? (whole cs : List Char) : Leaves (fraction? whole cs) cs := by
  unfold fraction?
  refine (leaves_optionalDigits? cs).bind fun fraction cs => ?_
  exact (leaves_optionalExponent? cs).bind fun exponent cs => leaves_ended? _ cs

theorem leaves_pointed? (cs : List Char) : Leaves (pointed? cs) cs := by
  unfold pointed?
  refine (leaves_digits? _ cs).bind fun fraction cs => ?_
  exact (leaves_optionalExponent? cs).bind fun exponent cs => leaves_ended? _ cs

theorem leaves_decimal? (cs : List Char) : Leaves (decimal? cs) cs := by
  unfold decimal?
  refine (leaves_digits? _ cs).bind fun whole cs => ?_
  dsimp only
  split
  · exact (leaves_fraction? whole _).cons '.'
  · exact (leaves_ended? _ _).cons 'n'
  · exact (leaves_optionalExponent? _).bind fun exponent cs => leaves_ended? _ cs

theorem leaves_based? (base fits : Nat) (cs : List Char) : Leaves (based? base fits cs) cs := by
  unfold based?
  refine (leaves_digits? _ cs).bind fun ds rest => ?_
  dsimp only
  split
  · exact (leaves_ended? _ _).cons 'n'
  · exact leaves_ended? _ _

theorem leaves_zeroLed? (cs : List Char) : Leaves (zeroLed? cs) cs := by
  have ends : (cs.span Char.isDigit).2 <:+ cs := by
    rw [List.span_eq_takeWhile_dropWhile]
    exact List.dropWhile_suffix _
  unfold zeroLed?
  refine Leaves.within ?_ ends
  dsimp only
  split
  · exact leaves_ended? _ _
  · split
    · rename_i rest found
      rw [found]
      exact (leaves_fraction? _ rest).cons '.'
    · rename_i rest found
      rw [found]
      refine Leaves.cons ?_ 'e'
      exact (leaves_exponent? rest).bind fun exponent rest => .some List.suffix_rfl
    · exact leaves_ended? _ _

theorem leaves_scan? (cs : List Char) : Leaves (scan? cs) cs := by
  unfold scan?
  split
  · exact (leaves_pointed? _).cons '.'
  · split
    · exact ((leaves_based? 2 64 _).cons 'b').cons '0'
    · exact ((leaves_based? 2 64 _).cons 'B').cons '0'
    · exact ((leaves_based? 8 21 _).cons 'o').cons '0'
    · exact ((leaves_based? 8 21 _).cons 'O').cons '0'
    · exact ((leaves_based? 16 16 _).cons 'x').cons '0'
    · exact ((leaves_based? 16 16 _).cons 'X').cons '0'
    · refine (Leaves.cons ?_ 'e').cons '0'
      exact (leaves_exponent? _).bind fun exponent rest => .some List.suffix_rfl
    · refine (Leaves.cons ?_ 'E').cons '0'
      exact (leaves_exponent? _).bind fun exponent rest => .some List.suffix_rfl
    · exact ((leaves_fraction? _ _).cons '.').cons '0'
    · exact ((leaves_ended? _ _).cons 'n').cons '0'
    · split
      · exact leaves_zeroLed? _
      · exact (leaves_ended? _ _).cons '0'
    · exact .some (List.suffix_cons _ _)
  · exact leaves_decimal? _

end Numeral

/-! ## Names -/

theorem leaves_codePoint? (cs : List Char) : Leaves (codePoint? cs) cs := by
  unfold codePoint?
  split
  · rename_i cs
    refine Leaves.cons ?_ '\x7b'
    rw [List.span_eq_takeWhile_dropWhile]
    split
    · rename_i d ds rest found
      have ends : '\x7d' :: rest <:+ cs := by
        rw [← (Prod.mk.inj found).2]
        exact List.dropWhile_suffix _
      dsimp only
      split
      · exact .some ((List.suffix_cons _ _).trans ends)
      · exact .none
    · exact .none
  · split
    · exact .some (List.suffix_append [_, _, _, _] _)
    · exact .none
  · exact .none

theorem leaves_nameEscape? (cs : List Char) : Leaves (nameEscape? cs) cs := by
  unfold nameEscape?
  split
  · refine Leaves.cons ?_ 'u'
    refine (leaves_codePoint? _).bind fun n rest => ?_
    dsimp only
    split
    · exact .none
    · exact .some List.suffix_rfl
  · exact .none

theorem nameParts?_suffix (fuel : Nat) {cs parts rest : List Char} {escaped : Bool}
    (read : nameParts? fuel cs = some (parts, escaped, rest)) : rest <:+ cs := by
  induction fuel generalizing cs parts escaped with
  | zero => cases read
  | succ fuel ih =>
    cases cs with
    | nil =>
      cases read
      exact List.suffix_rfl
    | cons c cs =>
      rw [nameParts?] at read
      split at read
      · obtain ⟨⟨d, middle⟩, escape, read⟩ := Option.bind_eq_some_iff.1 read
        dsimp only at read
        split at read
        · obtain ⟨⟨more, _, _⟩, later, ⟨⟩⟩ := Option.bind_eq_some_iff.1 read
          have ends := (ih later).trans (leaves_nameEscape? cs d middle escape)
          exact ends.trans (List.suffix_cons c cs)
        · cases read
      · split at read
        · obtain ⟨⟨more, _, _⟩, later, ⟨⟩⟩ := Option.bind_eq_some_iff.1 read
          exact (ih later).trans (List.suffix_cons c cs)
        · cases read
          exact List.suffix_rfl

theorem name?_suffix {cs rest : List Char} {name : String} {escaped : Bool}
    (read : name? cs = some (name, escaped, rest)) : rest <:+ cs := by
  cases cs with
  | nil => cases read
  | cons c cs =>
    rw [name?] at read
    split at read
    · obtain ⟨⟨d, middle⟩, escape, read⟩ := Option.bind_eq_some_iff.1 read
      dsimp only at read
      split at read
      · obtain ⟨⟨more, _, _⟩, later, ⟨⟩⟩ := Option.bind_eq_some_iff.1 read
        have ends := (nameParts?_suffix _ later).trans (leaves_nameEscape? cs d middle escape)
        exact ends.trans (List.suffix_cons c cs)
      · cases read
    · split at read
      · obtain ⟨⟨more, _, _⟩, later, ⟨⟩⟩ := Option.bind_eq_some_iff.1 read
        exact (nameParts?_suffix _ later).trans (List.suffix_cons c cs)
      · cases read

/-- A token made of the name at the start of a text. -/
theorem leaves_name? {α : Type} (cs : List Char) (f : String → Bool → α) :
    Leaves ((name? cs).map fun (name, escaped, rest) => (f name escaped, rest)) cs := by
  intro a rest read
  obtain ⟨⟨name, escaped, _⟩, found, ⟨⟩⟩ := Option.map_eq_some_iff.1 read
  exact name?_suffix found

/-! ## Strings and templates -/

namespace Quotation

theorem leaves_trailing? (cs : List Char) : Leaves (trailing? cs) cs := by
  unfold trailing?
  split
  · dsimp only
    split
    · exact .some (List.suffix_append [_, _, _, _, _, _] _)
    · exact .none
  · exact .none

theorem leaves_numeric? (cs : List Char) : Leaves (numeric? cs) cs := by
  unfold numeric?
  refine (leaves_codePoint? cs).bind fun n rest => ?_
  dsimp only
  split
  · split
    · rename_i low after found
      exact .some (leaves_trailing? rest low after found)
    · exact .some List.suffix_rfl
  · exact .some List.suffix_rfl

theorem leaves_escape? (inTemplate : Bool) (cs : List Char) :
    Leaves (escape? inTemplate cs) cs := by
  cases cs with
  | nil => exact .none
  | cons c cs =>
    have alone : cs <:+ c :: cs := List.suffix_cons c cs
    unfold escape?
    dsimp only
    split
    · split
      · exact .some (List.suffix_append [_, _] _)
      · exact .some alone
    · split
      · exact .some alone
      · split
        · exact .some alone
        · exact .some alone
        · exact .some alone
        · exact .some alone
        · exact .some alone
        · exact .some alone
        · split
          · split
            · exact .some (List.suffix_append [_, _, _] _)
            · exact .some alone
          · exact .some alone
        · split
          · rename_i g rest found
            exact .some ((leaves_numeric? cs g rest found).trans alone)
          · exact .some alone
        · split
          · split
            · exact .some alone
            · exact .some alone
          · split
            · exact .some (List.drop_suffix _ _)
            · exact .some alone

theorem leaves_string? (quote : Char) (fuel : Nat) (cs : List Char) :
    Leaves (string? quote fuel cs) cs := by
  induction fuel generalizing cs with
  | zero => exact .none
  | succ fuel ih =>
    cases cs with
    | nil => exact .none
    | cons c cs =>
      refine Leaves.cons ?_ c
      rw [string?]
      split
      · exact .some List.suffix_rfl
      · split
        · split
          · rename_i gs rest found
            exact ((ih rest).map fun _ _ => rfl).within (leaves_escape? false cs _ rest found)
          · exact .none
        · split
          · exact .none
          · exact (ih cs).map fun _ _ => rfl

theorem leaves_chunk? (fuel : Nat) (cs : List Char) : Leaves (chunk? fuel cs) cs := by
  induction fuel generalizing cs with
  | zero => exact .none
  | succ fuel ih =>
    unfold chunk?
    split
    · exact .none
    · exact .some (List.suffix_cons _ _)
    · exact .some (List.suffix_append [_, _] _)
    · rename_i rest
      refine Leaves.cons ?_ _
      split
      · rename_i gs after found
        exact ((ih after).map fun _ _ => rfl).within (leaves_escape? true rest _ after found)
      · rename_i after found
        exact ((ih after).map fun _ _ => rfl).within (leaves_escape? true rest _ after found)
      · exact .none
    · exact (((ih _).map fun _ _ => rfl).cons _).cons _
    · exact ((ih _).map fun _ _ => rfl).cons _
    · exact ((ih _).map fun _ _ => rfl).cons _

end Quotation

/-! ## Punctuators and tokens -/

theorem after?_suffix {p cs rest : List Char} (read : after? p cs = some rest) : rest <:+ cs := by
  fun_induction after? p cs with
  | case1 cs =>
    cases read
    exact List.suffix_rfl
  | case2 => cases read
  | case3 p c cs ih => exact (ih read).trans (List.suffix_cons c cs)
  | case4 => cases read

theorem leaves_punctuator? (cs : List Char) (p : String) : Leaves (punctuator? cs p) cs := by
  intro t rest read
  obtain ⟨after, found, read⟩ := Option.bind_eq_some_iff.1 read
  split at read
  · cases read
  · cases read
    exact after?_suffix found

namespace Token

theorem leaves_template? (cs : List Char) : Leaves (template? cs) cs :=
  (Quotation.leaves_chunk? _ cs).map fun _ _ => rfl

theorem leaves_string? (quote : Char) (cs : List Char) : Leaves (string? quote cs) cs :=
  (Quotation.leaves_string? quote _ cs).map fun _ _ => rfl

/-- **What stands after a token is an end of the text.** -/
theorem leaves_scan? (cs : List Char) : Leaves (scan? cs) cs := by
  unfold scan?
  split
  · exact .some List.suffix_rfl
  · exact (leaves_string? _ _).cons _
  · exact (leaves_string? _ _).cons _
  · exact (leaves_template? _).cons _
  · exact (leaves_name? _ fun name _ => hidden name).cons '#'
  · split
    · exact (Numeral.leaves_scan? _).map fun _ _ => rfl
    · split
      · exact leaves_name? _ word
      · intro t rest read
        obtain ⟨p, -, found⟩ := List.exists_of_findSome?_eq_some read
        exact leaves_punctuator? _ p t rest found

end Token

/-! ## Regular expressions -/

theorem regularExpressionEnd?_suffix {inClass : Bool} {cs rest : List Char}
    (read : regularExpressionEnd? inClass cs = some rest) : rest <:+ cs := by
  fun_induction regularExpressionEnd? inClass cs with
  | case1 => cases read
  | case2 => cases read
  | case3 inClass c cs _ ih => exact (ih read).trans (List.suffix_append [_, _] cs)
  | case4 => cases read
  | case5 =>
    cases read
    exact List.suffix_cons _ _
  | case6 _ cs _ _ _ ih | case7 _ cs _ _ _ _ ih | case8 _ _ cs _ _ _ _ _ ih =>
    exact (ih read).trans (List.suffix_cons _ cs)

theorem regularExpression?_suffix {cs rest : List Char} (read : regularExpression? cs = some rest) :
    rest <:+ cs := by
  unfold regularExpression? at read
  obtain ⟨middle, found, read⟩ := Option.bind_eq_some_iff.1 read
  rw [List.span_eq_takeWhile_dropWhile] at read
  dsimp only at read
  split at read
  · cases read
    exact (List.dropWhile_suffix _).trans (regularExpressionEnd?_suffix found)
  · cases read

/-! ## Between tokens -/

/-- **Blanks and comments, and a rest after them.** A comment goes on to the end of its line, or to
the first place that closes it. -/
inductive Skips : List Char → List Char → Prop where
  | done (cs : List Char) : Skips cs cs
  | blank {c : Char} {cs rest : List Char} (space : isSpace c) (later : Skips cs rest) :
      Skips (c :: cs) rest
  | line {body cs rest : List Char} (inside : ∀ c ∈ body, isLineEnd c = false)
      (ends : ∀ c ∈ cs.head?, isLineEnd c) (later : Skips cs rest) :
      Skips ('/' :: '/' :: (body ++ cs)) rest
  | block {body cs rest : List Char} (inside : ¬ ['*', '/'] <:+: body) (later : Skips cs rest) :
      Skips ('/' :: '*' :: (body ++ '*' :: '/' :: cs)) rest

theorem Skips.suffix {cs rest : List Char} (skips : Skips cs rest) : rest <:+ cs := by
  induction skips with
  | done cs => exact List.suffix_rfl
  | @blank c cs rest _ _ ih => exact ih.trans (List.suffix_cons c cs)
  | @line body cs rest _ _ _ ih => exact ih.trans (List.suffix_append ('/' :: '/' :: body) cs)
  | @block body cs rest _ _ ih =>
    refine ih.trans ⟨'/' :: '*' :: (body ++ ['*', '/']), ?_⟩
    simp

/-- Blanks and comments, the first of which may have been entered. -/
def SkipsFrom (rest : List Char) : Gap → List Char → Prop
  | .blank, cs => Skips cs rest
  | .line, cs => ∃ body after, cs = body ++ after ∧ (∀ c ∈ body, isLineEnd c = false) ∧
      (∀ c ∈ after.head?, isLineEnd c) ∧ Skips after rest
  | .block, cs => ∃ body after, cs = body ++ '*' :: '/' :: after ∧ ¬ ['*', '/'] <:+: body ∧
      Skips after rest

theorem skipsFrom_of_skipGaps? {newline newline' : Bool} {gap : Gap} {cs rest : List Char}
    (read : skipGaps? newline gap cs = some (newline', rest)) : SkipsFrom rest gap cs := by
  fun_induction skipGaps? newline gap cs with
  | case1 => cases read
  | case2 newline gap unclosed =>
    cases read
    cases gap with
    | blank => exact .done []
    | line => exact ⟨[], [], rfl, by simp, by simp, .done []⟩
    | block => exact (unclosed rfl).elim
  | case3 newline cs ih => exact ⟨[], cs, rfl, by simp, ih read⟩
  | case4 newline c cs unclosed ih =>
    obtain ⟨body, after, rfl, inside, later⟩ := ih read
    refine ⟨c :: body, after, rfl, fun closes => ?_, later⟩
    rcases List.infix_cons_iff.1 closes with ⟨more, whole⟩ | closes
    · obtain ⟨star, slash⟩ := List.cons.inj whole
      exact unclosed (more ++ '*' :: '/' :: after) star.symm (by rw [← slash]; rfl)
    · exact inside closes
  | case5 newline c cs ends ih =>
    have space : isSpace c := by simp [isSpace, ends]
    exact ⟨[], c :: cs, rfl, by simp, by simpa using ends, .blank space (ih read)⟩
  | case6 newline c cs inner ih =>
    obtain ⟨body, after, rfl, inside, ends, later⟩ := ih read
    have longer : ∀ d ∈ c :: body, isLineEnd d = false :=
      List.forall_mem_cons.2 ⟨Bool.eq_false_iff.2 inner, inside⟩
    exact ⟨c :: body, after, rfl, longer, ends, later⟩
  | case7 newline cs ih =>
    obtain ⟨body, after, rfl, inside, ends, later⟩ := ih read
    exact .line inside ends later
  | case8 newline cs ih =>
    obtain ⟨body, after, rfl, inside, later⟩ := ih read
    exact .block inside later
  | case9 newline c cs _ _ ends ih => exact .blank (by simp [isSpace, ends]) (ih read)
  | case10 newline c cs _ _ _ gap ih => exact .blank (by simp [isSpace, gap]) (ih read)
  | case11 newline c cs =>
    cases read
    exact .done _

/-- **What is skipped before a token is blanks and comments.** -/
theorem skips_of_skipGaps? {newline newline' : Bool} {cs rest : List Char}
    (read : skipGaps? newline .blank cs = some (newline', rest)) : Skips cs rest :=
  skipsFrom_of_skipGaps? read

theorem skipGaps?_line {body cs : List Char} (inside : ∀ c ∈ body, isLineEnd c = false)
    (ends : ∀ c ∈ cs.head?, isLineEnd c) (newline : Bool) :
    skipGaps? newline .line (body ++ cs) = skipGaps? newline .blank cs := by
  induction body with
  | nil =>
    cases cs with
    | nil => rfl
    | cons c cs =>
      have lineEnd : isLineEnd c := ends c rfl
      have slash : c ≠ '/' := by
        rintro rfl
        exact absurd lineEnd (by decide)
      rw [List.nil_append, skipGaps?, skipGaps?, if_pos lineEnd, if_pos lineEnd]
      · exact fun _ same => absurd same slash
      · exact fun _ same => absurd same slash
  | cons c body ih =>
    obtain ⟨inner, inside⟩ := List.forall_mem_cons.1 inside
    rw [List.cons_append, skipGaps?, if_neg (Bool.eq_false_iff.1 inner), ih inside]

theorem skipGaps?_block {body : List Char} (inside : ¬ ['*', '/'] <:+: body) (newline : Bool)
    (cs : List Char) :
    ∃ newline', skipGaps? newline .block (body ++ '*' :: '/' :: cs)
      = skipGaps? newline' .blank cs := by
  induction body generalizing newline with
  | nil => exact ⟨newline, rfl⟩
  | cons c body ih =>
    obtain ⟨newline', skipped⟩ := ih (fun closes => inside (closes.trans (List.infix_cons
      List.infix_rfl))) (newline || isLineEnd c)
    refine ⟨newline', ?_⟩
    rw [List.cons_append, skipGaps?, skipped]
    -- A star here is not followed by a slash, neither in the body nor by the star that closes it.
    rintro rest rfl closes
    cases body with
    | nil => cases closes
    | cons d body =>
      cases closes
      exact inside ⟨[], body, rfl⟩

/-- **Blanks and comments are skipped**, up to where nothing more can be. -/
theorem skipGaps?_of_skips {cs rest : List Char} (skips : Skips cs rest)
    (tight : ∀ newline, skipGaps? newline .blank rest = some (newline, rest)) (newline : Bool) :
    ∃ newline', skipGaps? newline .blank cs = some (newline', rest) := by
  induction skips generalizing newline with
  | done => exact ⟨newline, tight newline⟩
  | @blank c cs rest space _ ih =>
    obtain ⟨newline', skipped⟩ := skipGaps?_cons_space space newline cs
    rw [skipped]
    exact ih tight newline'
  | line inside ends _ ih =>
    rw [skipGaps?, skipGaps?_line inside ends]
    exact ih tight newline
  | @block body cs rest inside _ ih =>
    obtain ⟨newline', skipped⟩ := skipGaps?_block inside newline cs
    rw [skipGaps?, skipped]
    exact ih tight newline'

end MiniTemplate.Script
