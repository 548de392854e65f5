import MiniTemplate.Proofs.Binary64.Whole
import MiniTemplate.Proofs.Script.Quoted

/-!
# Lexemes

A lexeme is a token as it is printed: it has a text, and the token that the scanner makes
of that text. A character after a lexeme may lengthen it (`+` before `+`, a point after a
number), so what follows it at once has to be a character it stops before; every lexeme
stops before a blank. The main result is `Lexeme.scan?_text`: **a lexeme that stops before
the rest of a text is the token at the start of that text.**
-/

namespace MiniTemplate.Script

open MiniTemplate.Text (digitValue ofDigits quoted)

/-! ## Characters -/

/-- Whether an ASCII identifier may start with `c`. -/
def isWordStart (c : Char) : Bool := c.isAlpha || c == '$' || c == '_'

/-- Whether an ASCII identifier may go on with `c`. -/
def isWordPart (c : Char) : Bool := isWordStart c || c.isDigit

/-- Whether `c` separates tokens. -/
def isSpace (c : Char) : Bool := isGap c || isLineEnd c

theorem toNat_lt_of_isWordPart {c : Char} (part : isWordPart c) : c.toNat < 0x80 := by
  have letters : c.isAlpha = (c.isUpper || c.isLower) := rfl
  have below {d : Char} (most : c ≤ d) (ascii : d.toNat < 0x80) : c.toNat < 0x80 :=
    Nat.lt_of_le_of_lt most ascii
  simp only [isWordPart, isWordStart, letters, Bool.or_eq_true, beq_iff_eq] at part
  rcases part with (((upper | lower) | rfl) | rfl) | digit
  · have most : c ≤ 'Z' := (of_decide_eq_true upper).2
    exact below most (by decide)
  · have most : c ≤ 'z' := of_decide_eq_true (Bool.and_eq_true_iff.1 lower).2
    exact below most (by decide)
  · decide
  · decide
  · have most : c ≤ '9' := (Char.isDigit_iff_toNat.1 digit).2
    exact below most (by decide)

/-- What holds of all ASCII characters is a matter of going through them. -/
theorem forall_ascii {p : Char → Prop} (all : ∀ n < 0x80, p (Char.ofNat n)) {c : Char}
    (ascii : c.toNat < 0x80) : p c := by
  have at_c := all c.toNat ascii
  rwa [Char.ofNat_toNat] at at_c

theorem isWordPart_of_isWordStart {c : Char} (start : isWordStart c) : isWordPart c := by
  simp [isWordPart, start]

theorem isWordPart_of_isDigit {c : Char} (digit : c.isDigit) : isWordPart c := by
  simp [isWordPart, digit]

/-- What the scanner asks of a character that goes on with a word. -/
theorem wordPart_facts {c : Char} (part : isWordPart c) :
    isNamePart c = true ∧ c ≠ '\\' ∧ c ≠ '/' ∧ isSpace c = false :=
  forall_ascii (p := fun c => isWordPart c →
      isNamePart c = true ∧ c ≠ '\\' ∧ c ≠ '/' ∧ isSpace c = false)
    (by decide +kernel) (toNat_lt_of_isWordPart part) part

/-- What the scanner asks of a character that starts a word. -/
theorem wordStart_facts {c : Char} (start : isWordStart c) :
    isNameStart c = true ∧ c.isDigit = false ∧ c ∉ ['\x22', '\x27', '\x60', '#', '.'] :=
  forall_ascii (p := fun c => isWordStart c →
      isNameStart c = true ∧ c.isDigit = false ∧ c ∉ ['\x22', '\x27', '\x60', '#', '.'])
    (by decide +kernel) (toNat_lt_of_isWordPart (isWordPart_of_isWordStart start)) start

theorem isNamePart_of_isNameStart {c : Char} (start : isNameStart c) : isNamePart c = true := by
  unfold isNameStart at start
  unfold isNamePart
  split_ifs at start ⊢
  · simp only [Bool.or_eq_true] at start
    rcases start with (letter | dollar) | underscore
    · simp [Char.isAlphanum, letter]
    · simp [dollar]
    · simp [underscore]
  · simp [start]

theorem isNamePart_of_isDigit {c : Char} (digit : c.isDigit) : isNamePart c = true :=
  (wordPart_facts (isWordPart_of_isDigit digit)).1

/-! ## Gaps -/

theorem skipGaps?_of_not_space {c : Char} {cs : List Char} (space : isSpace c = false)
    (comment : c = '/' → ∀ d ∈ cs.head?, d ≠ '/' ∧ d ≠ '*') (newline : Bool) :
    skipGaps? newline .blank (c :: cs) = some (newline, c :: cs) := by
  simp only [isSpace, Bool.or_eq_false_iff] at space
  rw [skipGaps?]
  · simp [space.1, space.2]
  · rintro ds rfl rfl
    exact (comment rfl '/' rfl).1 rfl
  · rintro ds rfl rfl
    exact (comment rfl '*' rfl).2 rfl

theorem skipGaps?_cons_space {c : Char} (space : isSpace c) (newline : Bool) (cs : List Char) :
    ∃ newline', skipGaps? newline .blank (c :: cs) = skipGaps? newline' .blank cs := by
  have slash : c ≠ '/' := by
    rintro rfl
    exact absurd space (by decide)
  rw [skipGaps?]
  · cases lineEnd : isLineEnd c with
    | true => exact ⟨true, rfl⟩
    | false =>
      have gap : isGap c = true := by simpa [isSpace, lineEnd] using space
      exact ⟨newline, by simp [gap]⟩
  · exact fun _ same => absurd same slash
  · exact fun _ same => absurd same slash

theorem skipGaps?_append {gap cs : List Char} (blank : gap.all isSpace)
    (tight : ∀ newline, skipGaps? newline .blank cs = some (newline, cs)) (newline : Bool) :
    ∃ newline', skipGaps? newline .blank (gap ++ cs) = some (newline', cs) := by
  induction gap generalizing newline with
  | nil => exact ⟨newline, tight newline⟩
  | cons c gap ih =>
    simp only [List.all_cons, Bool.and_eq_true] at blank
    obtain ⟨after, skipped⟩ := skipGaps?_cons_space blank.1 newline (gap ++ cs)
    rw [List.cons_append, skipped]
    exact ih blank.2 after

/-! ## Words -/

theorem nameParts?_append {cs rest : List Char} (parts : ∀ c ∈ cs, isWordPart c)
    (stops : ∀ c ∈ rest.head?, isNamePart c = false ∧ c ≠ '\\') {fuel : Nat}
    (enough : cs.length < fuel) : nameParts? fuel (cs ++ rest) = some (cs, false, rest) := by
  induction cs generalizing fuel with
  | nil =>
    obtain ⟨fuel, rfl⟩ : ∃ f, fuel = f + 1 := ⟨fuel - 1, by omega⟩
    cases rest with
    | nil => rfl
    | cons c rest =>
      obtain ⟨part, backslash⟩ := stops c rfl
      simp [nameParts?, part, backslash]
  | cons c cs ih =>
    obtain ⟨fuel, rfl⟩ : ∃ f, fuel = f + 1 := ⟨fuel - 1, by omega⟩
    obtain ⟨part, backslash, -⟩ := wordPart_facts (parts c List.mem_cons_self)
    have later := ih (fun d member => parts d (List.mem_cons_of_mem _ member))
      (by simpa using enough)
    simp [nameParts?, part, backslash, later]

theorem startsNumber_cons {c : Char} (point : c ≠ '.') (digit : c.isDigit = false)
    (rest : List Char) : Token.startsNumber (c :: rest) = false := by
  unfold Token.startsNumber
  split
  · rename_i same
    exact absurd (List.cons.inj same).1 point
  · rename_i same
    rw [← (List.cons.inj same).1]
    exact digit
  · rfl

theorem scan?_name {c : Char} {cs rest : List Char} (start : isWordStart c)
    (parts : ∀ d ∈ cs, isWordPart d)
    (stops : ∀ d ∈ rest.head?, isNamePart d = false ∧ d ≠ '\\') :
    Token.scan? (c :: cs ++ rest) = some (.word (String.ofList (c :: cs)) false, rest) := by
  obtain ⟨nameStart, digit, plain⟩ := wordStart_facts start
  obtain ⟨-, backslash, -⟩ := wordPart_facts (isWordPart_of_isWordStart start)
  simp only [List.mem_cons, List.not_mem_nil, or_false, not_or] at plain
  obtain ⟨quote, apostrophe, backtick, hash, point⟩ := plain
  have length : cs.length < (cs ++ rest).length + 1 := by
    simp only [List.length_append]
    omega
  have read := nameParts?_append parts stops length
  have name : name? (c :: (cs ++ rest)) = some (String.ofList (c :: cs), false, rest) := by
    rw [name?, if_neg backslash, if_pos nameStart, read]
    rfl
  have number : Token.startsNumber (c :: (cs ++ rest)) = false :=
    startsNumber_cons point digit _
  rw [List.cons_append]
  simp [Token.scan?, number, nameStart, name]

/-! ## Numbers -/

theorem digitValue_digitChar {n : Nat} (small : n < 10) : digitValue n.digitChar = n := by
  have all : ∀ m < 10, digitValue m.digitChar = m := by decide
  exact all n small

theorem ofDigits_append (base : Nat) (ds : List Char) (d : Char) :
    ofDigits base (ds ++ [d]) = ofDigits base ds * base + digitValue d := by
  simp [ofDigits]

theorem ofDigits_toDigits (n : Nat) : ofDigits 10 (Nat.toDigits 10 n) = n := by
  induction n using Nat.strongRecOn with
  | _ n ih =>
    rw [Nat.toDigits_eq_if (by decide)]
    split
    · rename_i small
      simp [ofDigits, digitValue_digitChar small]
    · rename_i large
      have last : n % 10 < 10 := Nat.mod_lt _ (by decide)
      rw [ofDigits_append, ih (n / 10) (by omega), digitValue_digitChar last]
      omega

/-- A positive number is written without a leading zero. -/
theorem toDigits_head {n : Nat} (positive : n ≠ 0) :
    ∃ d ds, Nat.toDigits 10 n = d :: ds ∧ d ≠ '0' := by
  induction n using Nat.strongRecOn with
  | _ n ih =>
    rw [Nat.toDigits_eq_if (by decide)]
    split
    · exact ⟨_, _, rfl, by simpa using positive⟩
    · obtain ⟨d, ds, digits, nonzero⟩ := ih (n / 10) (by omega) (by omega)
      exact ⟨d, ds ++ [(n % 10).digitChar], by rw [digits, List.cons_append], nonzero⟩

namespace Numeral

/-- Whether the characters after a decimal numeral leave it as it is. -/
def Ends (rest : List Char) : Prop := ∀ c ∈ rest.head?, isNamePart c = false ∧ c ≠ '.'

theorem Ends.ne {c d : Char} {rest : List Char} (ends : Ends (c :: rest))
    (part : isNamePart d = true) : c ≠ d := by
  rintro rfl
  simp [(ends c rfl).1] at part

theorem Ends.isDigit {c : Char} {rest : List Char} (ends : Ends (c :: rest)) :
    c.isDigit = false := by
  cases digit : c.isDigit with
  | false => rfl
  | true => exact absurd rfl (ends.ne (isNamePart_of_isDigit digit))

theorem Ends.isNameStart {c : Char} {rest : List Char} (ends : Ends (c :: rest)) :
    isNameStart c = false := by
  cases start : Script.isNameStart c with
  | false => rfl
  | true => exact absurd rfl (ends.ne (isNamePart_of_isNameStart start))

theorem moreDigits?_append {ds rest : List Char} (digits : ∀ d ∈ ds, d.isDigit)
    (ends : Ends rest) : moreDigits? Char.isDigit (ds ++ rest) = some (ds, rest) := by
  induction ds with
  | nil =>
    cases rest with
    | nil => rfl
    | cons c rest =>
      have underscore : c ≠ '_' := ends.ne (by decide)
      simp [moreDigits?, underscore, ends.isDigit]
  | cons d ds ih =>
    have digit := digits d List.mem_cons_self
    have underscore : d ≠ '_' := by
      rintro rfl
      revert digit
      decide
    have later := ih fun e member => digits e (List.mem_cons_of_mem _ member)
    simp [moreDigits?, underscore, digit, later]

theorem ended?_of_ends {rest : List Char} (ends : Ends rest) (value : Numeral) :
    ended? value rest = some (value, rest) := by
  cases rest with
  | nil => rfl
  | cons c rest => simp [ended?, ends.isDigit, ends.isNameStart]

theorem scan?_zero {rest : List Char} (ends : Ends rest) :
    scan? ('0' :: rest) = some (decimal ['0'] [] 0, rest) := by
  cases rest with
  | nil => rfl
  | cons c rest =>
    have point : c ≠ '.' := (ends c rfl).2
    have letters : c ∉ ['b', 'B', 'o', 'O', 'x', 'X', 'e', 'E', 'n'] := by
      intro member
      have parts : ['b', 'B', 'o', 'O', 'x', 'X', 'e', 'E', 'n'].all isNamePart = true := by decide
      exact ends.ne (List.all_eq_true.1 parts c member) rfl
    simp only [List.mem_cons, List.not_mem_nil, or_false, not_or] at letters
    obtain ⟨b, B, o, O, x, X, e, E, n⟩ := letters
    simp [scan?, ends.isDigit, ended?_of_ends ends]

theorem decimal?_append {d : Char} {ds rest : List Char} (digits : ∀ e ∈ d :: ds, e.isDigit)
    (ends : Ends rest) : decimal? (d :: ds ++ rest) = some (decimal (d :: ds) [] 0, rest) := by
  have read : digits? Char.isDigit (d :: ds ++ rest) = some (d :: ds, rest) := by
    have more := moreDigits?_append (fun e member => digits e (List.mem_cons_of_mem _ member)) ends
    simp [digits?, digits d List.mem_cons_self, more]
  have exponent : optionalExponent? rest = some (0, rest) := by
    unfold optionalExponent?
    split
    · exact absurd rfl (ends.ne (by decide : isNamePart 'e' = true))
    · exact absurd rfl (ends.ne (by decide : isNamePart 'E' = true))
    · rfl
  unfold decimal?
  rw [read]
  simp only [Option.bind_eq_bind, Option.bind_some]
  split
  · exact absurd rfl (ends '.' rfl).2
  · exact absurd rfl (ends.ne (by decide : isNamePart 'n' = true))
  · rw [exponent]
    exact ended?_of_ends ends _

theorem scan?_toDigits {n : Nat} (small : n < Nat.pow 2 53) {rest : List Char}
    (ends : Ends rest) :
    scan? (Nat.toDigits 10 n ++ rest) = some (.double (Binary64.ofNat n), rest) := by
  have value : decimal (Nat.toDigits 10 n) [] 0 = .double (Binary64.ofNat n) := by
    simp [decimal, ofDigits_toDigits, Binary64.ofDecimal_whole small]
  have digits : ∀ d ∈ Nat.toDigits 10 n, d.isDigit := fun d member =>
    Nat.isDigit_of_mem_toDigits (by decide) (by decide) member
  by_cases zero : n = 0
  · subst zero
    rw [Nat.toDigits_zero] at value ⊢
    rw [← value]
    exact scan?_zero ends
  · obtain ⟨d, ds, spelled, nonzero⟩ := toDigits_head zero
    rw [spelled] at value digits ⊢
    have point : d ≠ '.' := by
      rintro rfl
      exact absurd (digits '.' List.mem_cons_self) (by decide)
    rw [← value, ← decimal?_append digits ends]
    unfold scan?
    split
    · rename_i same
      exact absurd (List.cons.inj same).1 point
    · rename_i same
      exact absurd (List.cons.inj same).1 nonzero
    · rfl

end Numeral

theorem exists_digit (n : Nat) : ∃ d ds, Nat.toDigits 10 n = d :: ds ∧ d.isDigit := by
  obtain ⟨d, ds, digits⟩ := List.exists_cons_of_ne_nil (Nat.toDigits_ne_nil (n := n) (b := 10))
  have member : d ∈ Nat.toDigits 10 n := by
    rw [digits]
    exact List.mem_cons_self
  exact ⟨d, ds, digits, Nat.isDigit_of_mem_toDigits (by decide) (by decide) member⟩

theorem scan?_toDigits {n : Nat} (small : n < Nat.pow 2 53) {rest : List Char}
    (ends : Numeral.Ends rest) :
    Token.scan? (Nat.toDigits 10 n ++ rest)
      = some (.number (.double (Binary64.ofNat n)), rest) := by
  have read := Numeral.scan?_toDigits small ends
  obtain ⟨d, ds, digits, digit⟩ := exists_digit n
  rw [digits, List.cons_append] at read ⊢
  have other : d ∉ ['\x22', '\x27', '\x60', '#', '.'] := by
    intro member
    have none : ['\x22', '\x27', '\x60', '#', '.'].all (fun c => !c.isDigit) = true := by decide
    simpa [digit] using List.all_eq_true.1 none d member
  simp only [List.mem_cons, List.not_mem_nil, or_false, not_or] at other
  obtain ⟨quote, apostrophe, backtick, hash, point⟩ := other
  have number : Token.startsNumber (d :: (ds ++ rest)) = true := by
    unfold Token.startsNumber
    split
    · rename_i same
      exact absurd (List.cons.inj same).1 point
    · rename_i same
      rw [← (List.cons.inj same).1]
      exact digit
    · rename_i same
      cases same
  simp [Token.scan?, number, read]

/-! ## Punctuators -/

theorem after?_append (ps rest : List Char) : after? ps (ps ++ rest) = some rest := by
  induction ps with
  | nil => rfl
  | cons p ps ih => simp [after?, ih]

theorem eq_append_of_after? {ps cs rest : List Char} (found : after? ps cs = some rest) :
    cs = ps ++ rest := by
  induction ps generalizing cs with
  | nil =>
    cases found
    rfl
  | cons p ps ih =>
    cases cs with
    | nil => cases found
    | cons c cs =>
      simp only [after?] at found
      split at found
      · rename_i same
        rw [same, ih found, List.cons_append]
      · cases found

/-- Whether a punctuator goes on with `c`: another one starts with both, they open a
comment, or a digit makes a point part of a number. -/
def goesOn (m : String) (c : Char) : Bool :=
  punctuators.any (fun p => (m.toList ++ [c]).isPrefixOf p.toList)
    || m == "/" && (c == '/' || c == '*')
    || (m == "." || m == "?.") && c.isDigit

/-- What the scanner asks of the first character of a punctuator. -/
def isMarkStart (c : Char) : Bool :=
  !(['\x22', '\x27', '\x60', '#', '\\'].contains c) && !isNameStart c && !c.isDigit && !isSpace c

theorem exists_markStart {m : String} (known : m ∈ punctuators) :
    ∃ c cs, m.toList = c :: cs ∧ isMarkStart c := by
  have all : ∀ m ∈ punctuators, (m.toList.head?.any isMarkStart) = true := by decide +kernel
  have start := all m known
  cases chars : m.toList with
  | nil => simp [chars] at start
  | cons c cs =>
    rw [chars] at start
    exact ⟨c, cs, rfl, by simpa using start⟩

/-- No punctuator is a beginning of one that stands later in the table. -/
theorem punctuators_ordered :
    punctuators.Pairwise fun p q => ¬ p.toList <+: q.toList := by decide +kernel

theorem punctuator?_self {m : String} {rest : List Char}
    (stops : ∀ c ∈ rest.head?, goesOn m c = false) :
    punctuator? (m.toList ++ rest) m = some (.mark m, rest) := by
  have digit : ¬ (m == "?." && rest.head?.any Char.isDigit) = true := by
    cases rest with
    | nil => simp
    | cons c rest =>
      have stop := stops c rfl
      simp only [goesOn, Bool.or_eq_false_iff] at stop
      intro both
      simp only [List.head?_cons, Option.any_some, Bool.and_eq_true] at both
      simp [both.1, both.2] at stop
  simp only [punctuator?, after?_append, Option.bind_eq_bind, Option.bind_some, if_neg digit]
  rfl

/-- A punctuator that is no beginning of `m` is not read where `m` stops. -/
theorem punctuator?_other {m p : String} (known : p ∈ punctuators) {rest : List Char}
    (stops : ∀ c ∈ rest.head?, goesOn m c = false)
    (differs : ¬ p.toList <+: m.toList) :
    punctuator? (m.toList ++ rest) p = none := by
  cases found : after? p.toList (m.toList ++ rest) with
  | none => simp [punctuator?, found]
  | some tail =>
    -- `p` and `m` start the same text, so one of them is a beginning of the other. If `p` were
    -- the longer one, `m` would not stop before the character that lengthens it.
    rcases List.append_eq_append_iff.1 (eq_append_of_after? found) with
      ⟨more, longer, remainder⟩ | ⟨more, shorter, -⟩
    · cases more with
      | nil => exact absurd ⟨[], by simp [longer]⟩ differs
      | cons c more =>
        have lengthens : (m.toList ++ [c]).isPrefixOf p.toList = true := by
          refine List.isPrefixOf_iff_prefix.2 ⟨more, ?_⟩
          simp [longer]
        have stop := stops c (by rw [remainder]; rfl)
        simp only [goesOn, Bool.or_eq_false_iff, List.any_eq_false] at stop
        exact absurd lengthens (stop.1.1 p known)
    · exact absurd ⟨more, shorter.symm⟩ differs

theorem findSome?_punctuator {m : String} (known : m ∈ punctuators) {rest : List Char}
    (stops : ∀ c ∈ rest.head?, goesOn m c = false) :
    punctuators.findSome? (punctuator? (m.toList ++ rest)) = some (.mark m, rest) := by
  obtain ⟨before, later, table⟩ := List.append_of_mem known
  refine List.findSome?_eq_some_iff.2 ⟨before, m, later, table, punctuator?_self stops, ?_⟩
  intro p member
  have ordered := punctuators_ordered
  rw [table, List.pairwise_append] at ordered
  have differs := ordered.2.2 p member m List.mem_cons_self
  exact punctuator?_other (by rw [table]; exact List.mem_append_left _ member) stops differs

theorem startsNumber_mark {m : String} (known : m ∈ punctuators) {rest : List Char}
    (stops : ∀ c ∈ rest.head?, goesOn m c = false) :
    Token.startsNumber (m.toList ++ rest) = false := by
  have pointed : ∀ m ∈ punctuators, m.toList.head? = some '.' → m = "." ∨ m = "..." := by
    decide +kernel
  obtain ⟨c, cs, chars, start⟩ := exists_markStart known
  by_cases point : c = '.'
  · rcases pointed m known (by rw [chars, point]; rfl) with rfl | rfl
    · cases rest with
      | nil => rfl
      | cons d rest =>
        have stop := stops d rfl
        simp only [goesOn, Bool.or_eq_false_iff] at stop
        have digit : d.isDigit = false := by simpa using stop.2
        exact digit
    · rfl
  · rw [chars, List.cons_append]
    simp only [isMarkStart, Bool.and_eq_true, Bool.not_eq_true'] at start
    exact startsNumber_cons point start.1.2 _

theorem scan?_mark {m : String} (known : m ∈ punctuators) {rest : List Char}
    (stops : ∀ c ∈ rest.head?, goesOn m c = false) :
    Token.scan? (m.toList ++ rest) = some (.mark m, rest) := by
  obtain ⟨c, cs, chars, start⟩ := exists_markStart known
  have found := findSome?_punctuator known stops
  have number := startsNumber_mark known stops
  rw [chars, List.cons_append] at found number ⊢
  simp only [isMarkStart, Bool.and_eq_true, Bool.not_eq_true', List.contains_eq_mem, List.mem_cons,
    List.not_mem_nil, or_false, decide_eq_false_iff_not, not_or] at start
  obtain ⟨⟨⟨⟨quote, apostrophe, backtick, hash, backslash⟩, name⟩, digit⟩, -⟩ := start
  simp [Token.scan?, number, backslash, name, found]

/-! ## Lexemes -/

/-- A token as it is printed. -/
inductive Lexeme where
  | word (name : String)
  | number (value : Nat)
  | string (value : String)
  | mark (text : String)
  /-- Template text after the quote that opens a template, and whether it ends that. -/
  | opening (text : String) (last : Bool)
  /-- Template text after the brace that closes a substitution, and whether it ends the
  template. -/
  | resumption (text : String) (last : Bool)
  deriving DecidableEq, Repr

namespace Lexeme

/-- The text of a lexeme. -/
def text : Lexeme → List Char
  | .word name => name.toList
  | .number value => Nat.toDigits 10 value
  | .string value => quoted value.toList
  | .mark text => text.toList
  | .opening text last => '\x60' :: Quotation.chunkText text.toList last
  | .resumption text last => '\x7d' :: Quotation.chunkText text.toList last

/-- The token of a lexeme. -/
def token : Lexeme → Token
  | .word name => .word name false
  | .number value => .number (.double (.ofNat value))
  | .string value => .string value
  | .mark text => .mark text
  | .opening text last | .resumption text last => .template (some text) last

/-- Whether a lexeme goes on with a template. -/
def resumes : Lexeme → Bool
  | .resumption .. => true
  | _ => false

/-- Whether a lexeme is one of the language: an ASCII name, a number that is not rounded,
a punctuator, or quoted text. -/
def valid : Lexeme → Bool
  | .word name =>
    match name.toList with
    | c :: cs => isWordStart c && cs.all isWordPart
    | [] => false
  | .number value => decide (value < Nat.pow 2 53)
  | .mark text => punctuators.contains text
  | _ => true

/-- Whether a lexeme is over before the character `c`. -/
def stopsBefore : Lexeme → Char → Bool
  | .word _, c => !isNamePart c && c != '\\'
  | .number _, c => !isNamePart c && c != '.'
  | .mark text, c => !goesOn text c
  | _, _ => true

/-- Every lexeme is over before a blank. -/
theorem stopsBefore_blank {l : Lexeme} (valid : l.valid) : l.stopsBefore ' ' = true := by
  cases l with
  | mark m =>
    have all : ∀ m ∈ punctuators, goesOn m ' ' = false := by decide +kernel
    have known : m ∈ punctuators := by simpa [Lexeme.valid] using valid
    simp [stopsBefore, all m known]
  | word => rfl
  | number => rfl
  | string => rfl
  | opening => rfl
  | resumption => rfl

/-- **A lexeme that stops before the rest of a text is the token at its start.** -/
theorem scan?_text {l : Lexeme} (valid : l.valid) (plain : l.resumes = false) {rest : List Char}
    (stops : ∀ c ∈ rest.head?, l.stopsBefore c) :
    Token.scan? (l.text ++ rest) = some (l.token, rest) := by
  cases l with
  | word name =>
    simp only [Lexeme.valid] at valid
    cases chars : name.toList with
    | nil => simp [chars] at valid
    | cons c cs =>
      simp only [chars, Bool.and_eq_true, List.all_eq_true] at valid
      have ends : ∀ d ∈ rest.head?, isNamePart d = false ∧ d ≠ '\\' := by
        intro d member
        simpa [stopsBefore] using stops d member
      have read := scan?_name valid.1 valid.2 ends
      rw [← chars, String.ofList_toList] at read
      exact read
  | number value =>
    have small : value < Nat.pow 2 53 := by simpa [Lexeme.valid] using valid
    have ends : Numeral.Ends rest := by
      intro c member
      simpa [stopsBefore] using stops c member
    exact scan?_toDigits small ends
  | string value => exact Token.scan?_quoted value rest
  | mark m =>
    have known : m ∈ punctuators := by simpa [Lexeme.valid] using valid
    exact scan?_mark known fun c member => by simpa [stopsBefore] using stops c member
  | opening value last => exact Token.template?_chunkText value last rest
  | resumption => cases plain

/-- The first character of a lexeme starts no gap. -/
theorem exists_first {l : Lexeme} (valid : l.valid) :
    ∃ c cs, l.text = c :: cs ∧ isSpace c = false ∧ (c = '/' → l = .mark "/" ∨ l = .mark "/=") := by
  cases l with
  | word name =>
    simp only [Lexeme.valid] at valid
    cases chars : name.toList with
    | nil => simp [chars] at valid
    | cons c cs =>
      simp only [chars, Bool.and_eq_true] at valid
      obtain ⟨-, -, slash, space⟩ := wordPart_facts (isWordPart_of_isWordStart valid.1)
      exact ⟨c, cs, chars, space, fun same => absurd same slash⟩
  | number value =>
    obtain ⟨d, ds, digits, digit⟩ := exists_digit value
    obtain ⟨-, -, slash, space⟩ := wordPart_facts (isWordPart_of_isDigit digit)
    exact ⟨d, ds, digits, space, fun same => absurd same slash⟩
  | string value => exact ⟨_, _, rfl, rfl, fun same => absurd same (by decide)⟩
  | mark m =>
    have known : m ∈ punctuators := by simpa [Lexeme.valid] using valid
    have slashes : ∀ m ∈ punctuators, m.toList.head? = some '/' → m = "/" ∨ m = "/=" := by
      decide +kernel
    obtain ⟨c, cs, chars, start⟩ := exists_markStart known
    simp only [isMarkStart, Bool.and_eq_true, Bool.not_eq_true'] at start
    refine ⟨c, cs, chars, start.2, fun same => ?_⟩
    simpa using slashes m known (by rw [chars, same]; rfl)
  | opening => exact ⟨_, _, rfl, rfl, fun same => absurd same (by decide)⟩
  | resumption => exact ⟨_, _, rfl, rfl, fun same => absurd same (by decide)⟩

/-- Nothing is skipped before a lexeme. -/
theorem skipGaps?_text {l : Lexeme} (valid : l.valid) {rest : List Char}
    (stops : ∀ c ∈ rest.head?, l.stopsBefore c) (newline : Bool) :
    skipGaps? newline .blank (l.text ++ rest) = some (newline, l.text ++ rest) := by
  obtain ⟨c, cs, chars, space, slash⟩ := exists_first valid
  rw [chars, List.cons_append]
  refine skipGaps?_of_not_space space ?_ newline
  intro same d member
  rcases slash same with rfl | rfl
  · obtain ⟨rfl, rfl⟩ : '/' = c ∧ [] = cs := List.cons.inj chars
    have stop := stops d member
    simp only [stopsBefore, goesOn, Bool.not_eq_true', Bool.or_eq_false_iff] at stop
    simpa using stop.1.2
  · obtain ⟨rfl, rfl⟩ : '/' = c ∧ ['='] = cs := List.cons.inj chars
    obtain rfl : '=' = d := by simpa using member
    decide

end Lexeme

/-! ## Texts of lexemes -/

/-- **The texts of some lexemes**: gaps may stand before, between and after them, and have to
stand where a lexeme does not stop before the next one. -/
inductive Spells : List Lexeme → List Char → Prop where
  | done {gap : List Char} (blank : gap.all isSpace) : Spells [] gap
  | next {l : Lexeme} {ls : List Lexeme} {gap rest : List Char} (blank : gap.all isSpace)
      (stops : ∀ c ∈ rest.head?, l.stopsBefore c) (later : Spells ls rest) :
      Spells (l :: ls) (gap ++ (l.text ++ rest))

theorem Spells.cons_blank {ls : List Lexeme} {cs : List Char} (spelled : Spells ls cs) {c : Char}
    (space : isSpace c) : Spells ls (c :: cs) := by
  cases spelled with
  | done blank => exact .done (by simp [space, blank])
  | next blank stops later =>
    rw [← List.cons_append]
    exact .next (by simp [space, blank]) stops later

/-- The text of some lexemes with a blank between two of them only where one has to be. -/
def spelled : List Lexeme → List Char
  | [] => []
  | l :: ls =>
    let rest := spelled ls
    l.text ++ if rest.head?.all l.stopsBefore then rest else ' ' :: rest

theorem spells_spelled {ls : List Lexeme} (valid : ∀ l ∈ ls, l.valid) : Spells ls (spelled ls) := by
  induction ls with
  | nil => exact .done rfl
  | cons l ls ih =>
    have later := ih fun m member => valid m (List.mem_cons_of_mem _ member)
    simp only [spelled]
    split
    · rename_i stops
      show Spells (l :: ls) ([] ++ (l.text ++ spelled ls))
      refine .next rfl (fun c member => ?_) later
      rw [Option.mem_def.1 member] at stops
      exact stops
    · show Spells (l :: ls) ([] ++ (l.text ++ ' ' :: spelled ls))
      refine .next rfl (fun c member => ?_) (later.cons_blank (by decide))
      obtain rfl : ' ' = c := by simpa using member
      exact Lexeme.stopsBefore_blank (valid l List.mem_cons_self)

end MiniTemplate.Script
