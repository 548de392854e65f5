import Mathlib.Tactic.SplitIfs
import MiniTemplate.Script.Token

/-!
# Quoted text that is read back

A text has two quoted forms. The characters between double quotes are those of
`Text.escape`; template text is escaped so that it opens no substitution, ends no
template and keeps its carriage returns. The scanner reads both back as the text.
-/

namespace MiniTemplate.Script

open MiniTemplate.Text (isHex digitValue ofDigits hexUnit hexDigit escapeChar escape quoted)

namespace Glyph

theorem text_map_char (cs : List Char) : text (cs.map .char) = String.ofList cs := by
  have whole : (cs.map Glyph.char).any isLone = false := by
    simp [List.any_map, Function.comp_def, isLone]
  have plain : (cs.map Glyph.char).flatMap plain = cs := by
    induction cs with
    | nil => rfl
    | cons c cs ih =>
      have whole : (cs.map Glyph.char).any isLone = false := by
        simp [List.any_map, Function.comp_def, isLone]
      simp [Glyph.plain, ih whole]
  simp [text, whole, plain]

end Glyph

namespace Quotation

/-! ## Strings -/

theorem codePoint?_hexUnit {n : Nat} (control : n < 0x20) (rest : List Char) :
    codePoint? (hexUnit n ++ rest) = some (n, rest) := by
  have digits : ∀ m < 0x20, (hexUnit m).all isHex = true := by decide
  have value : ∀ m < 0x20, ofDigits 16 (hexUnit m) = m := by decide
  have first : ∀ m < 0x20, hexDigit (m / 4096) = '0' := by decide
  have digits := digits n control
  have value := value n control
  simp only [hexUnit, first n control] at digits value ⊢
  simp [codePoint?, digits, value]

theorem numeric?_hexUnit {c : Char} (control : c.toNat < 0x20) (rest : List Char) :
    numeric? (hexUnit c.toNat ++ rest) = some (.char c, rest) := by
  have low : ¬ (0xD800 ≤ c.toNat ∧ c.toNat < 0xDC00) := by omega
  have whole : isSurrogate c.toNat = false := by
    simp only [isSurrogate, decide_eq_false_iff_not]
    omega
  simp [numeric?, codePoint?_hexUnit control, low, Glyph.ofCodePoint, whole]

/-- A character inside quotes is read as itself. -/
theorem string?_escapeChar (c : Char) (fuel : Nat) (rest : List Char) :
    string? '\x22' (fuel + 1) (escapeChar c ++ rest)
      = (string? '\x22' fuel rest).map fun (more, rest) => (.char c :: more, rest) := by
  unfold escapeChar
  split_ifs with quote backslash backspace formFeed lineFeed carriageReturn tab control
  · subst quote
    rfl
  · subst backslash
    rfl
  · subst backspace
    rfl
  · subst formFeed
    rfl
  · subst lineFeed
    rfl
  · subst carriageReturn
    rfl
  · subst tab
    rfl
  · have escape : escape? false ('u' :: (hexUnit c.toNat ++ rest)) = some (.glyphs [.char c], rest) := by
      simp [escape?, isLineEnd, numeric?_hexUnit control]
    simp [string?, escape]
  · simp [string?, quote, backslash, lineFeed, carriageReturn]

theorem string?_escape (cs : List Char) {fuel : Nat} (enough : cs.length < fuel)
    (rest : List Char) :
    string? '\x22' fuel (escape cs ++ '\x22' :: rest) = some (cs.map .char, rest) := by
  induction cs generalizing fuel with
  | nil =>
    obtain ⟨fuel, rfl⟩ : ∃ f, fuel = f + 1 := ⟨fuel - 1, by omega⟩
    simp [escape, string?]
  | cons c cs ih =>
    obtain ⟨fuel, rfl⟩ : ∃ f, fuel = f + 1 := ⟨fuel - 1, by omega⟩
    have shorter : cs.length < fuel := by simpa using enough
    have split : escape (c :: cs) ++ '\x22' :: rest = escapeChar c ++ (escape cs ++ '\x22' :: rest) := by
      simp [escape]
    rw [split, string?_escapeChar, ih shorter]
    rfl

theorem length_le_length_escape (cs : List Char) : cs.length ≤ (escape cs).length := by
  induction cs with
  | nil => simp
  | cons c cs ih =>
    have visible : 1 ≤ (escapeChar c).length := by
      unfold escapeChar
      split_ifs <;> simp
    simp only [escape, List.flatMap_cons, List.length_append, List.length_cons] at ih ⊢
    omega

/-! ## Template text -/

/-- A character of template text. -/
def chunkChar (c : Char) : List Char :=
  if c = '\x60' ∨ c = '\\' ∨ c = '$' then ['\\', c]
  else if c = '\r' then ['\\', 'r']
  else [c]

/-- Template text up to what ends it: a substitution, or the template's end. -/
def chunkText (cs : List Char) (last : Bool) : List Char :=
  cs.flatMap chunkChar ++ if last then ['\x60'] else ['$', '\x7b']

theorem chunk?_chunkChar (c : Char) (fuel : Nat) (rest : List Char) :
    chunk? (fuel + 1) (chunkChar c ++ rest)
      = (chunk? fuel rest).map fun (k, rest) => (k.prepend (some [.char c]), rest) := by
  unfold chunkChar
  split_ifs with special carriageReturn
  · rcases special with rfl | rfl | rfl <;> rfl
  · subst carriageReturn
    rfl
  · obtain ⟨backtick, backslash, dollar⟩ : c ≠ '\x60' ∧ c ≠ '\\' ∧ c ≠ '$' := by
      simpa using special
    simp [chunk?, dollar, carriageReturn]

theorem chunk?_chunkText (cs : List Char) (last : Bool) {fuel : Nat} (enough : cs.length < fuel)
    (rest : List Char) :
    chunk? fuel (chunkText cs last ++ rest) = some (⟨some (cs.map .char), last⟩, rest) := by
  induction cs generalizing fuel with
  | nil =>
    obtain ⟨fuel, rfl⟩ : ∃ f, fuel = f + 1 := ⟨fuel - 1, by omega⟩
    cases last <;> rfl
  | cons c cs ih =>
    obtain ⟨fuel, rfl⟩ : ∃ f, fuel = f + 1 := ⟨fuel - 1, by omega⟩
    have shorter : cs.length < fuel := by simpa using enough
    have split : chunkText (c :: cs) last ++ rest = chunkChar c ++ (chunkText cs last ++ rest) := by
      simp [chunkText]
    rw [split, chunk?_chunkChar, ih shorter]
    rfl

theorem length_le_length_chunkText (cs : List Char) (last : Bool) :
    cs.length + 1 ≤ (chunkText cs last).length := by
  induction cs with
  | nil => cases last <;> simp [chunkText]
  | cons c cs ih =>
    have visible : 1 ≤ (chunkChar c).length := by
      unfold chunkChar
      split_ifs <;> simp
    simp only [chunkText, List.flatMap_cons, List.length_append, List.length_cons] at ih ⊢
    omega

end Quotation

namespace Token

/-- **A quoted text is the token of that text**, whatever follows it. -/
theorem scan?_quoted (value : String) (rest : List Char) :
    scan? (quoted value.toList ++ rest) = some (.string value, rest) := by
  have enough : value.toList.length < (escape value.toList ++ '\x22' :: rest).length + 1 := by
    have length := Quotation.length_le_length_escape value.toList
    simp only [List.length_append]
    omega
  have read := Quotation.string?_escape value.toList enough rest
  simp only [quoted, List.cons_append, List.append_assoc, List.nil_append, scan?, string?, read,
    Option.map_some, Glyph.text_map_char, String.ofList_toList]

/-- **Escaped template text is the token of that text**, whatever follows it. -/
theorem template?_chunkText (value : String) (last : Bool) (rest : List Char) :
    template? (Quotation.chunkText value.toList last ++ rest)
      = some (.template (some value) last, rest) := by
  have enough :
      value.toList.length < (Quotation.chunkText value.toList last ++ rest).length + 1 := by
    have length := Quotation.length_le_length_chunkText value.toList last
    simp only [List.length_append]
    omega
  simp only [template?, Quotation.chunk?_chunkText value.toList last enough rest, Option.map_some,
    ofChunk, Glyph.text_map_char, String.ofList_toList]

end Token

end MiniTemplate.Script
