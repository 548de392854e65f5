import Mathlib.Data.List.DropRight
import MiniTemplate.Proofs.Script.Recovery
import MiniTemplate.Text.Blank

/-!
# Texts of lexemes, put together and trimmed

Two texts of lexemes make one where no lexeme runs into the other text (`Spells.append`), and
a text of lexemes stays one without the blanks at its ends (`Spells.trim`): no lexeme starts
or ends with a blank. A text is parsed by its lexemes alone, which is `parse_of_spells`; so a
quoted text is parsed as the text itself (`parse_quote`).
-/

namespace MiniTemplate.Script

open MiniTemplate.Text (isBlank)

/-! ## Ends of lexemes -/

/-- The code points of ranges. -/
def rangeCodes (ranges : List (Nat × Nat)) : List Nat :=
  ranges.flatMap fun r => List.range' r.1 (r.2 + 1 - r.1)

/-- What holds of all characters in ranges is a matter of going through them. -/
theorem forall_inRanges {ranges : List (Nat × Nat)} {p : Char → Prop}
    (all : ∀ n ∈ rangeCodes ranges, p (Char.ofNat n)) {c : Char} (within : Text.inRanges ranges c) :
    p c := by
  simp only [Text.inRanges, List.any_eq_true, Bool.and_eq_true, decide_eq_true_eq] at within
  obtain ⟨r, member, least, most⟩ := within
  have among : c.toNat ∈ List.range' r.1 (r.2 + 1 - r.1) := by
    rw [List.mem_range'_1]
    omega
  have at_c := all c.toNat (List.mem_flatMap.2 ⟨r, member, among⟩)
  rwa [Char.ofNat_toNat] at at_c

/-- Every blank separates tokens. -/
theorem isSpace_of_isBlank {c : Char} (blank : isBlank c) : isSpace c :=
  forall_inRanges (p := fun c => isSpace c) (by decide +kernel) blank

/-- The ranges of the characters that separate tokens. -/
def spaceRanges : List (Nat × Nat) := gapRanges ++ [(0x0A, 0x0A), (0x0D, 0x0D), (0x2028, 0x2029)]

theorem inRanges_of_isSpace {c : Char} (space : isSpace c) : Text.inRanges spaceRanges c := by
  rw [Text.inRanges, spaceRanges, List.any_append, Bool.or_eq_true]
  rw [isSpace, Bool.or_eq_true] at space
  rcases space with gap | lineEnd
  · exact .inl gap
  · right
    simp only [isLineEnd, Bool.or_eq_true, beq_iff_eq] at lineEnd
    rcases lineEnd with ((rfl | rfl) | separator) | separator
    · decide
    · decide
    · simp [separator]
    · simp [separator]

/-- Every lexeme is over before a character that separates tokens. -/
theorem Lexeme.stopsBefore_space (l : Lexeme) {c : Char} (space : isSpace c) :
    l.stopsBefore c = true := by
  have other : isNamePart c = false ∧ c ≠ '\\' ∧ c ≠ '.' ∧ c ≠ '/' ∧ c ≠ '*' ∧ c.isDigit = false :=
    forall_inRanges (p := fun c =>
        isNamePart c = false ∧ c ≠ '\\' ∧ c ≠ '.' ∧ c ≠ '/' ∧ c ≠ '*' ∧ c.isDigit = false)
      (by decide +kernel) (inRanges_of_isSpace space)
  obtain ⟨part, backslash, point, slash, star, digit⟩ := other
  cases l with
  | word => simp [stopsBefore, part, backslash]
  | number => simp [stopsBefore, part, point]
  | mark m =>
    have solid : ∀ p ∈ punctuators, p.toList.all (fun c => !isSpace c) = true := by decide +kernel
    have longer : punctuators.any (fun p => (m.toList ++ [c]).isPrefixOf p.toList) = false := by
      rw [List.any_eq_false]
      intro p known within
      have member : c ∈ p.toList :=
        (List.isPrefixOf_iff_prefix.1 within).subset (List.mem_append_right _ (by simp))
      simpa [space] using List.all_eq_true.1 (solid p known) c member
    simp [stopsBefore, goesOn, longer, slash, star, digit]
  | string => rfl
  | opening => rfl
  | resumption => rfl

/-- The characters that close what an expression may stand in. -/
def closers : List Char := [')', ']', '\x7d', ':']

/-- Every lexeme is over before them. -/
theorem Lexeme.stopsBefore_closer {l : Lexeme} (valid : l.valid) {c : Char} (closes : c ∈ closers) :
    l.stopsBefore c = true := by
  cases l with
  | mark m =>
    have all : closers.all (fun c => punctuators.all fun m => !goesOn m c) := by decide +kernel
    have known : m ∈ punctuators := by simpa [Lexeme.valid] using valid
    exact List.all_eq_true.1 (List.all_eq_true.1 all c closes) m known
  | word =>
    have all : closers.all (fun c => !isNamePart c && c != '\\') := by decide +kernel
    exact List.all_eq_true.1 all c closes
  | number =>
    have all : closers.all (fun c => !isNamePart c && c != '.') := by decide +kernel
    exact List.all_eq_true.1 all c closes
  | string => rfl
  | opening => rfl
  | resumption => rfl

/-- The last character of a lexeme is no blank. -/
theorem Lexeme.exists_last {l : Lexeme} (valid : l.valid) :
    ∃ cs c, l.text = cs ++ [c] ∧ isSpace c = false := by
  have chunk (value : String) (last : Bool) :
      ∃ cs c, Quotation.chunkText value.toList last = cs ++ [c] ∧ isSpace c = false := by
    cases last with
    | true => exact ⟨_, '\x60', rfl, by decide⟩
    | false =>
      refine ⟨value.toList.flatMap Quotation.chunkChar ++ ['$'], '\x7b', ?_, by decide⟩
      simp [Quotation.chunkText]
  cases l with
  | word name =>
    simp only [Lexeme.valid] at valid
    cases chars : name.toList with
    | nil => simp [chars] at valid
    | cons d ds =>
      have parts : ∀ c ∈ d :: ds, isWordPart c := by
        simp only [chars, Bool.and_eq_true, List.all_eq_true] at valid
        intro c member
        rcases List.mem_cons.1 member with rfl | member
        · exact isWordPart_of_isWordStart valid.1
        · exact valid.2 c member
      have split := List.dropLast_append_getLast (List.cons_ne_nil d ds)
      refine ⟨(d :: ds).dropLast, (d :: ds).getLast (by simp), ?_, ?_⟩
      · rw [Lexeme.text, chars, split]
      · exact (wordPart_facts (parts _ (List.getLast_mem _))).2.2.2
  | number value =>
    have digits : ∀ d ∈ Nat.toDigits 10 value, d.isDigit := fun d member =>
      Nat.isDigit_of_mem_toDigits (by decide) (by decide) member
    have split := List.dropLast_append_getLast (Nat.toDigits_ne_nil (n := value) (b := 10))
    refine ⟨_, _, split.symm, ?_⟩
    exact (wordPart_facts (isWordPart_of_isDigit (digits _ (List.getLast_mem _)))).2.2.2
  | string value =>
    refine ⟨'\x22' :: Text.escape value.toList, '\x22', rfl, by decide⟩
  | mark m =>
    have known : m ∈ punctuators := by simpa [Lexeme.valid] using valid
    have all : ∀ m ∈ punctuators, (m.toList.getLast?.any fun c => !isSpace c) = true := by
      decide +kernel
    have last := all m known
    cases found : m.toList.getLast? with
    | none => simp [found] at last
    | some c =>
      obtain ⟨cs, chars⟩ := List.getLast?_eq_some_iff.1 found
      exact ⟨cs, c, chars, by simpa [found] using last⟩
  | opening value last =>
    obtain ⟨cs, c, text, space⟩ := chunk value last
    exact ⟨'\x60' :: cs, c, by rw [Lexeme.text, text, List.cons_append], space⟩
  | resumption value last =>
    obtain ⟨cs, c, text, space⟩ := chunk value last
    exact ⟨'\x7d' :: cs, c, by rw [Lexeme.text, text, List.cons_append], space⟩

/-! ## Texts of lexemes -/

namespace Spells

variable {ls ms : List Lexeme} {cs ds : List Char}

theorem append_blanks {gap : List Char} (blank : gap.all isSpace) (spells : Spells ls cs) :
    Spells ls (gap ++ cs) := by
  induction gap with
  | nil => exact spells
  | cons c gap ih =>
    simp only [List.all_cons, Bool.and_eq_true] at blank
    exact (ih blank.2).cons_blank blank.1

/-- **Two texts of lexemes make one**, if the lexemes of the first stop before the second. -/
theorem append (first : Spells ls cs) (second : Spells ms ds)
    (stops : ∀ l ∈ ls, ∀ c ∈ ds.head?, l.stopsBefore c) : Spells (ls ++ ms) (cs ++ ds) := by
  induction first with
  | done blank => exact second.append_blanks blank
  | @next l ls gap rest blank before later ih =>
    rw [List.append_assoc, List.append_assoc]
    refine .next blank ?_ (ih fun m member => stops m (List.mem_cons_of_mem l member))
    intro c member
    cases rest with
    | nil => exact stops l List.mem_cons_self c member
    | cons d rest => exact before c member

theorem of_cons_blank (valid : AllValid ls) {c : Char} (space : isSpace c)
    (spells : Spells ls (c :: cs)) : Spells ls cs := by
  generalize whole : c :: cs = text at spells
  cases spells with
  | done blank =>
    subst whole
    simp only [List.all_cons, Bool.and_eq_true] at blank
    exact .done blank.2
  | @next l ls gap rest blank stops later =>
    cases gap with
    | cons d gap =>
      obtain ⟨rfl, rfl⟩ := List.cons.inj whole
      simp only [List.all_cons, Bool.and_eq_true] at blank
      exact .next blank.2 stops later
    | nil =>
      -- Then the lexeme itself would start with the blank.
      obtain ⟨d, ds, chars, solid, -⟩ := Lexeme.exists_first (valid l List.mem_cons_self)
      rw [chars] at whole
      obtain ⟨rfl, -⟩ := List.cons.inj whole
      exact absurd space (by simp [solid])

theorem of_append_blank (valid : AllValid ls) {c : Char} (space : isSpace c)
    (spells : Spells ls (cs ++ [c])) : Spells ls cs := by
  generalize whole : cs ++ [c] = text at spells
  induction spells generalizing cs with
  | done blank =>
    subst whole
    rw [List.all_append, Bool.and_eq_true] at blank
    exact .done blank.1
  | @next l ls gap rest blank stops later ih =>
    rcases List.eq_nil_or_concat rest with rfl | ⟨before, d, rfl⟩
    · -- Then the lexeme itself would end with the blank.
      obtain ⟨ds, d, chars, solid⟩ := Lexeme.exists_last (valid l List.mem_cons_self)
      rw [chars, List.append_nil, ← List.append_assoc] at whole
      obtain ⟨-, same⟩ := List.append_inj' whole rfl
      obtain rfl : c = d := by simpa using same
      exact absurd space (by simp [solid])
    · rw [List.concat_eq_append, ← List.append_assoc, ← List.append_assoc] at whole
      obtain ⟨rfl, same⟩ := List.append_inj' whole rfl
      obtain rfl : c = d := by simpa using same
      rw [List.append_assoc]
      refine .next blank ?_ (ih (fun m member => valid m (List.mem_cons_of_mem l member))
        (List.concat_eq_append ..).symm)
      intro d member
      apply stops
      cases before with
      | nil => cases member
      | cons => exact member

theorem dropWhile (valid : AllValid ls) (spells : Spells ls cs) :
    Spells ls (cs.dropWhile isBlank) := by
  induction cs with
  | nil => exact spells
  | cons c cs ih =>
    rw [List.dropWhile_cons]
    split
    · rename_i blank
      exact ih (spells.of_cons_blank valid (isSpace_of_isBlank blank))
    · exact spells

theorem rdropWhile (valid : AllValid ls) (spells : Spells ls cs) :
    Spells ls (cs.rdropWhile isBlank) := by
  induction cs using List.reverseRecOn with
  | nil => exact spells
  | append_singleton cs c ih =>
    rw [List.rdropWhile_concat]
    split
    · rename_i blank
      exact ih (spells.of_append_blank valid (isSpace_of_isBlank blank))
    · exact spells

/-- **A text of lexemes stays one without the blanks at its ends.** -/
theorem trim (valid : AllValid ls) (spells : Spells ls cs) : Spells ls (Text.trim cs) :=
  (spells.dropWhile valid).rdropWhile valid

/-- A text of lexemes in parentheses, and another after it. -/
theorem parens (valid : AllValid ls) (inside : Spells ls cs) (later : Spells ms ds) :
    Spells (.mark "(" :: (ls ++ .mark ")" :: ms)) ('(' :: (cs ++ ')' :: ds)) := by
  have closed : Spells (.mark ")" :: ms) (')' :: ds) := by
    show Spells (.mark ")" :: ms) ([] ++ (")".toList ++ ds))
    refine .next rfl (fun c _ => ?_) later
    simp [Lexeme.stopsBefore, goesOn, punctuators, List.isPrefixOf]
  have whole := inside.append closed fun l member c first => by
    obtain rfl : ')' = c := by simpa using first
    exact Lexeme.stopsBefore_closer (valid l member) (by decide)
  show Spells (.mark "(" :: (ls ++ .mark ")" :: ms)) ([] ++ ("(".toList ++ (cs ++ ')' :: ds)))
  refine .next rfl (fun c _ => ?_) whole
  simp [Lexeme.stopsBefore, goesOn, punctuators, List.isPrefixOf]

end Spells

theorem Expr.prints_printed {e : Expr} (wellFormed : e.WellFormed) : e.Prints e.printed := by
  rw [Prints, printed, String.toList_ofList]
  exact spells_spelled wellFormed.allValid

/-- **A text is read as a tree, up to a stream**: there the parser stops, and what is ahead of that
stream is not looked at. -/
def ReadsTo (text : String) (e : Expr) (last : Stream) : Prop :=
  ∃ start p, Stream.start? text.toList = some start ∧
    Parser.expression (nested (depthBound text.toList)) {} start = some (p, last) ∧
    p.lower = .ok e ∧ last.flawed = false ∧ last.unset = 0

theorem ReadsTo.parse {text : String} {e : Expr} {last : Stream} (reads : ReadsTo text e last) :
    parse text = .ok e := by
  obtain ⟨start, p, started, read, lower, flawed, unset⟩ := reads
  have phrase : phrase? text.toList = some p := by
    simp [phrase?, started, read, flawed, unset]
  rw [Script.parse, phrase]
  simp [lower, Except.mapError]

/-- **A text is read by its lexemes**, up to a token that leaves an expression whole. -/
theorem readsTo_of_spells {ls : List Lexeme} {e : Expr} {cs : List Char} {text : String}
    (valid : AllValid ls) (parses : ParsesExpression ls e) (spells : Spells ls cs)
    (after : List Char) (whole : text.toList = cs ++ after)
    (stops : ∀ l ∈ ls, ∀ c ∈ after.head?, l.stopsBefore c)
    (tight : ∀ newline, skipGaps? newline .blank after = some (newline, after)) {token : Token}
    {beyond : List Char} (scan : Token.scan? after = some (token, beyond))
    (short : (beyond.length + if token = .finish then 0 else 1) ≤ after.length)
    (settles : token.settles 0) : ∃ last, ReadsTo text e last ∧ last.token = token := by
  obtain ⟨first, last, start, reads, few, hand, flawed, unset⟩ :=
    exists_reads_of_spells_before spells valid after stops tight scan short
      (s := { token := .finish, newline := false, rest := text.toList }) whole
  have deep : first.left < depthBound text.toList := by
    unfold depthBound
    rw [whole]
    omega
  obtain ⟨p, read, lower⟩ := parses _ reads (by rw [hand]; exact settles) deep
  exact ⟨last, ⟨first, p, start, read, lower, flawed, unset⟩, hand⟩

/-- **A text is parsed by its lexemes.** -/
theorem parse_of_spells {ls : List Lexeme} {e : Expr} {text : String} (valid : AllValid ls)
    (parses : ParsesExpression ls e) (spells : Spells ls text.toList) : parse text = .ok e := by
  obtain ⟨last, reads, -⟩ := readsTo_of_spells valid parses spells [] (List.append_nil _).symm
    (by simp) (fun _ => rfl) rfl (by simp) rfl
  exact reads.parse

/-- **A quoted text is parsed as the text**: whatever characters it holds, the escapes that quoting
writes are those that the language of expressions reads. -/
theorem parse_quote (text : String) : parse (Text.quote text) = .ok (.literal (.string text)) := by
  have wellFormed : (Expr.literal (.string text)).WellFormed := .literal (.string text)
  have spells : Spells (Expr.literal (.string text)).lexemes (Text.quote text).toList := by
    have alone : Spells [.string text] ([] ++ ((Lexeme.string text).text ++ [])) :=
      .next rfl (by simp) (.done rfl)
    rw [Text.quote, String.toList_ofList, Expr.lexemes, Literal.lexeme]
    simpa [Lexeme.text] using alone
  exact parse_of_spells wellFormed.allValid wellFormed.isRecovered.expression spells

end MiniTemplate.Script
