import Mathlib.Data.List.Chain
import MiniTemplate.Proofs.Pass.Trace
import MiniTemplate.Proofs.Script.Spacing

/-!
# Interpolated text, from braces to a tree

A text is written as segments: literal text without braces, and expressions between double
braces with blanks around them. Such a text is cut back into its segments, each segment is
spelled as an operand, and the whole is read as their sum, which leans to the left. The main
result, `extract_of_segments`, says so of the whole way from the text to the tree.
-/

namespace MiniTemplate

open Script

/-! ## Segments -/

/-- A text without braces. -/
def BraceFree (cs : List Char) : Prop := '\x7b' ∉ cs ∧ '\x7d' ∉ cs

instance (cs : List Char) : Decidable (BraceFree cs) := inferInstanceAs (Decidable (_ ∧ _))

theorem BraceFree.append {cs ds : List Char} (first : BraceFree cs) (second : BraceFree ds) :
    BraceFree (cs ++ ds) := by
  constructor
  · intro member
    rcases List.mem_append.1 member with member | member
    · exact first.1 member
    · exact second.1 member
  · intro member
    rcases List.mem_append.1 member with member | member
    · exact first.2 member
    · exact second.2 member

theorem braceFree_of_blank {gap : List Char} (blank : gap.all isSpace) : BraceFree gap := by
  constructor
  · intro member
    exact absurd (List.all_eq_true.1 blank _ member) (by decide)
  · intro member
    exact absurd (List.all_eq_true.1 blank _ member) (by decide)

/-- **A segment of an interpolated text**: literal text, or a printed expression between double
braces, with blanks before and after it. -/
inductive Segment where
  | literal (text : String) (solid : text.toList ≠ []) (bare : BraceFree text.toList)
  | binding (before : List Char) (source : String) (after : List Char) (tree : Expr)
      (wellFormed : tree.WellFormed) (prints : tree.Prints source)
      (bare : BraceFree source.toList) (blankBefore : before.all isSpace)
      (blankAfter : after.all isSpace)

namespace Segment

/-- What stands between the braces of a binding. -/
def body (before : List Char) (source : String) (after : List Char) : List Char :=
  before ++ (source.toList ++ after)

/-- The text of a segment. -/
def text : Segment → List Char
  | .literal text _ _ => text.toList
  | .binding before source after .. =>
    '\x7b' :: '\x7b' :: (body before source after ++ ['\x7d', '\x7d'])

/-- The tree of a segment: a string, or the tree of its expression. -/
def tree : Segment → Expr
  | .literal text _ _ => .string text
  | .binding _ _ _ tree .. => tree

/-- Whether a segment is a binding. -/
def isBinding : Segment → Bool
  | .literal .. => false
  | .binding .. => true

/-- Two segments that may stand side by side: not two literals, which would be one. -/
def Apart (p q : Segment) : Prop := p.isBinding ∨ q.isBinding

/-- The piece that a segment is found as. -/
def piece : Segment → Piece
  | .literal text _ _ => .literal text.toList
  | .binding before source after .. => .binding (body before source after) []

/-- The text of several segments. -/
def join (segments : List Segment) : List Char := segments.flatMap text

theorem braceFree_body {before after : List Char} {source : String}
    (bare : BraceFree source.toList) (blankBefore : before.all isSpace)
    (blankAfter : after.all isSpace) : BraceFree (body before source after) :=
  (braceFree_of_blank blankBefore).append (bare.append (braceFree_of_blank blankAfter))

/-- No segment starts with a closing brace. -/
theorem head?_join_ne (segments : List Segment) : (join segments).head? ≠ some '\x7d' := by
  cases segments with
  | nil => simp [join]
  | cons p segments =>
    cases p with
    | binding => simp [join, text]
    | literal text solid bare =>
      obtain ⟨c, cs, chars⟩ := List.exists_cons_of_ne_nil solid
      intro closes
      obtain rfl : c = '\x7d' := by simpa [join, Segment.text, chars] using closes
      exact bare.2 (by simp [chars])

end Segment

/-! ## Cutting a text into segments -/

namespace Piece

theorem close?_append {body : List Char} (bare : '\x7d' ∉ body) (rest : List Char) :
    close? (body ++ '\x7d' :: '\x7d' :: rest) = some (body, rest) := by
  induction body with
  | nil => rfl
  | cons c body ih =>
    simp only [List.mem_cons, not_or] at bare
    have later := ih bare.2
    rw [List.cons_append, close?, later]
    · rfl
    · intro _ same
      exact absurd same.symm bare.1

theorem body?_append {body : List Char} (solid : body ≠ []) (bare : '\x7d' ∉ body)
    (rest : List Char) : body? (body ++ '\x7d' :: '\x7d' :: rest) = some (body, rest) := by
  cases body with
  | nil => exact absurd rfl solid
  | cons c body =>
    simp only [List.mem_cons, not_or] at bare
    rw [List.cons_append, body?, close?_append bare.2]
    rfl

theorem open?_append {before body : List Char} (plain : '\x7b' ∉ before) (solid : body ≠ [])
    (bare : '\x7d' ∉ body) (rest : List Char) :
    open? (before ++ '\x7b' :: '\x7b' :: (body ++ '\x7d' :: '\x7d' :: rest))
      = some (before, body, rest) := by
  induction before with
  | nil =>
    rw [List.nil_append, open?, body?_append solid bare]
    rfl
  | cons c before ih =>
    simp only [List.mem_cons, not_or] at plain
    have later := ih plain.2
    rw [List.cons_append, open?, later]
    · rfl
    · intro _ same
      exact absurd same.symm plain.1

theorem open?_of_plain {cs : List Char} (plain : '\x7b' ∉ cs) : open? cs = none := by
  induction cs with
  | nil => rfl
  | cons c cs ih =>
    simp only [List.mem_cons, not_or] at plain
    rw [open?, ih plain.2]
    · rfl
    · intro _ same
      exact absurd same.symm plain.1

theorem splitWithin_of_plain {cs : List Char} (plain : '\x7b' ∉ cs) (fuel : Nat) :
    splitWithin fuel cs = ofLiteral cs := by
  cases fuel with
  | zero => rfl
  | succ fuel => rw [splitWithin, open?_of_plain plain]

/-- The first binding of a text ends where its braces close, if no further brace follows. -/
theorem splitWithin_append {before body rest : List Char} (plain : '\x7b' ∉ before)
    (solid : body ≠ []) (bare : '\x7d' ∉ body) (ends : rest.head? ≠ some '\x7d') (fuel : Nat) :
    splitWithin (fuel + 1) (before ++ '\x7b' :: '\x7b' :: (body ++ '\x7d' :: '\x7d' :: rest))
      = ofLiteral before ++ .binding body [] :: splitWithin fuel rest := by
  have spill : rest.takeWhile (· == '\x7d') = [] ∧ rest.dropWhile (· == '\x7d') = rest := by
    cases rest with
    | nil => exact ⟨rfl, rfl⟩
    | cons c rest =>
      have other : (c == '\x7d') = false := by simpa using ends
      simp [other]
  rw [splitWithin, open?_append plain solid bare]
  simp only [spill.1, spill.2]

end Piece

namespace Segment

/-- A printed expression has at least one character. -/
theorem body_ne_nil {before after : List Char} {source : String} {tree : Expr}
    (wellFormed : tree.WellFormed) (prints : tree.Prints source) : body before source after ≠ [] := by
  obtain ⟨l, ls, lexemes, -⟩ := wellFormed.isRecovered.begins
  have solid : source.toList ≠ [] := by
    intro empty
    rw [Expr.Prints, empty, lexemes] at prints
    generalize whole : ([] : List Char) = text at prints
    cases prints with
    | next =>
      have valid := wellFormed.allValid l (by rw [lexemes]; exact List.mem_cons_self)
      obtain ⟨c, cs, chars, -⟩ := Lexeme.exists_first valid
      simp [chars] at whole
  simp [body, solid]

/-- **A text is cut into its segments.** -/
theorem splitWithin_join : ∀ (segments : List Segment) (fuel : Nat), segments.IsChain Apart →
    (join segments).length ≤ fuel → Piece.splitWithin fuel (join segments) = segments.map piece
  | [], fuel, _, _ => Piece.splitWithin_of_plain (by simp [join]) fuel
  | [.literal text solid bare], fuel, _, _ => by
    have only : join [.literal text solid bare] = text.toList := List.append_nil _
    rw [only, Piece.splitWithin_of_plain bare.1, Piece.ofLiteral]
    simp [solid, piece]
  | .literal .. :: .literal .. :: _, _, apart, _ => by
    rw [List.isChain_cons_cons] at apart
    rcases apart.1 with absent | absent <;> cases absent
  | .literal text solid bare :: .binding before source after tree wellFormed prints plain
      blankBefore blankAfter :: rest, fuel, apart, enough => by
    have free := braceFree_body plain blankBefore blankAfter
    have layout : join (.literal text solid bare :: .binding before source after tree wellFormed
        prints plain blankBefore blankAfter :: rest) = text.toList ++ '\x7b' :: '\x7b' ::
          (body before source after ++ '\x7d' :: '\x7d' :: join rest) := by
      simp [join, Segment.text]
    rw [layout] at enough ⊢
    simp only [List.length_append, List.length_cons] at enough
    obtain ⟨fuel, rfl⟩ : ∃ f, fuel = f + 1 := ⟨fuel - 1, by omega⟩
    have later := splitWithin_join rest fuel apart.tail.tail (by omega)
    rw [Piece.splitWithin_append bare.1 (body_ne_nil wellFormed prints) free.2
      (head?_join_ne rest), later, Piece.ofLiteral]
    simp [solid, piece]
  | .binding before source after tree wellFormed prints plain blankBefore blankAfter :: rest, fuel,
      apart, enough => by
    have free := braceFree_body plain blankBefore blankAfter
    have layout : join (.binding before source after tree wellFormed prints plain blankBefore
        blankAfter :: rest) = [] ++ '\x7b' :: '\x7b' ::
          (body before source after ++ '\x7d' :: '\x7d' :: join rest) := by
      simp [join, Segment.text]
    rw [layout] at enough ⊢
    simp only [List.length_append, List.length_cons, List.nil_append] at enough
    obtain ⟨fuel, rfl⟩ : ∃ f, fuel = f + 1 := ⟨fuel - 1, by omega⟩
    have later := splitWithin_join rest fuel apart.tail (by omega)
    rw [Piece.splitWithin_append List.not_mem_nil (body_ne_nil wellFormed prints) free.2
      (head?_join_ne rest), later]
    rfl

theorem detect_join {segments : List Segment} (apart : segments.IsChain Apart)
    (bound : ∃ p ∈ segments, p.isBinding) :
    detect (String.ofList (join segments))
      = ⟨true, String.ofList (joinWithPlus (segments.map fun p => p.piece.source))⟩ := by
  have split : Piece.split (join segments) = segments.map piece :=
    splitWithin_join segments _ apart (Nat.le_refl _)
  have found : (segments.map piece).any Piece.isBinding = true := by
    obtain ⟨p, member, binding⟩ := bound
    refine List.any_eq_true.2 ⟨p.piece, List.mem_map_of_mem member, ?_⟩
    cases p with
    | literal => cases binding
    | binding => rfl
  rw [detect, String.toList_ofList, split]
  simp only [found, if_true, List.map_map]
  rfl

/-! ## The sum of the segments -/

/-- The lexemes that a segment is spelled as. -/
def lexemes : Segment → List Lexeme
  | .literal text _ _ => [.string text]
  | .binding _ _ _ tree .. => .mark "(" :: (tree.lexemes ++ [.mark ")"])

theorem allValid_lexemes (p : Segment) : AllValid p.lexemes := by
  have known : "(" ∈ punctuators ∧ ")" ∈ punctuators := by decide
  cases p with
  | literal => simp [lexemes, Lexeme.valid]
  | binding _ _ _ tree wellFormed => simp [lexemes, wellFormed.allValid, known]

/-- A segment is spelled as an operand, whatever follows it. -/
theorem spells_source (p : Segment) {ls : List Lexeme} {cs : List Char} (later : Spells ls cs) :
    Spells (p.lexemes ++ ls) (p.piece.source ++ cs) := by
  cases p with
  | literal text =>
    show Spells (.string text :: ls) ([] ++ (Text.quoted text.toList ++ cs))
    exact .next rfl (fun _ _ => rfl) later
  | binding before source after tree wellFormed prints bare blankBefore blankAfter =>
    have inside : Spells tree.lexemes (body before source after) := by
      have padded := prints.append (.done blankAfter) fun l _ c member => by
        have space : isSpace c := List.all_eq_true.1 blankAfter c (List.mem_of_mem_head? member)
        exact l.stopsBefore_space space
      rw [List.append_nil] at padded
      exact padded.append_blanks blankBefore
    have whole := (inside.trim wellFormed.allValid).parens wellFormed.allValid later
    simpa [lexemes, piece, Piece.source] using whole

theorem joinWithPlus_cons (source : List Char) (rest : List (List Char)) :
    joinWithPlus (source :: rest) = source ++ rest.flatMap ('+' :: ·) := by
  induction rest generalizing source with
  | nil => simp [joinWithPlus]
  | cons next rest ih =>
    rw [joinWithPlus, ih next]
    · simp
    · simp

/-- The lexemes of the segments after the first, each after a plus sign. -/
def addends (rest : List Segment) : List Lexeme := rest.flatMap fun p => .mark "+" :: p.lexemes

theorem spells_addends (rest : List Segment) :
    Spells (addends rest) ((rest.map fun p => p.piece.source).flatMap ('+' :: ·)) := by
  induction rest with
  | nil => exact .done rfl
  | cons p rest ih =>
    have later := p.spells_source ih
    show Spells (.mark "+" :: (p.lexemes ++ addends rest)) ([] ++ ("+".toList ++ (p.piece.source ++ _)))
    refine .next rfl (fun c first => ?_) later
    -- A quote or a parenthesis follows the plus sign.
    have start : c = '\x22' ∨ c = '(' := by
      cases p with
      | literal => exact .inl (by simpa [piece, Piece.source, Text.quoted, eq_comm] using first)
      | binding => exact .inr (by simpa [piece, Piece.source, eq_comm] using first)
    rcases start with rfl | rfl
    · decide +kernel
    · decide +kernel

theorem recovered (p : Segment) : Recovered 15 p.lexemes p.tree := by
  cases p with
  | literal text =>
    have string := Expr.isRecovered_literal (.string text)
    rw [Expr.IsRecovered, Expr.lexemes] at string
    exact string
  | binding _ _ _ tree wellFormed => exact wellFormed.isRecovered.parens

/-- The tree of a sum that has been read so far, and the segments after it. -/
def sum (left : Expr) (rest : List Segment) : Expr :=
  rest.foldl (fun left p => .binary "+" left p.tree) left

/-- **A sum leans to the left**: one segment after another joins what has been read. -/
theorem recovered_addends {k : Nat} {ls : List Lexeme} {left : Expr} (read : Recovered k ls left)
    (high : 11 ≤ k) (rest : List Segment) :
    ∃ j, Recovered j (ls ++ addends rest) (sum left rest) := by
  induction rest generalizing k ls left with
  | nil =>
    refine ⟨k, ?_⟩
    rw [addends, List.flatMap_nil, List.append_nil]
    exact read
  | cons p rest ih =>
    have known : ("+", 10) ∈ binaryOperators := by decide
    have fits : leftFits "+" 10 k := by simpa [leftFits] using high
    have joined : ParsesBinary 11 (ls ++ .mark "+" :: p.lexemes) (.binary "+" left p.tree) :=
      .operation known (read.binary (by omega)) (p.recovered.binary (by decide)) fits rfl (by decide)
    obtain ⟨j, whole⟩ := ih (.ofBinary joined (read.begins.append _) (by decide) (by decide))
      (by decide)
    refine ⟨j, ?_⟩
    have layout : ls ++ addends (p :: rest) = ls ++ .mark "+" :: p.lexemes ++ addends rest := by
      simp [addends]
    rw [layout]
    exact whole

theorem parse_joinWithPlus (first : Segment) (rest : List Segment) :
    parse (String.ofList (joinWithPlus ((first :: rest).map fun p => p.piece.source)))
      = .ok (sum first.tree rest) := by
  obtain ⟨j, recovered⟩ := recovered_addends first.recovered (by decide) rest
  have valid : AllValid (first.lexemes ++ addends rest) := by
    have plus : "+" ∈ punctuators := by decide
    rw [allValid_append]
    refine ⟨first.allValid_lexemes, fun l member => ?_⟩
    obtain ⟨p, -, inside⟩ := List.mem_flatMap.1 member
    rcases List.mem_cons.1 inside with rfl | inside
    · exact valid_mark.2 plus
    · exact p.allValid_lexemes l inside
  apply parse_of_spells valid recovered.expression
  rw [String.toList_ofList, List.map_cons, joinWithPlus_cons]
  exact first.spells_source (spells_addends rest)

end Segment

/-! ## From a text to its tree -/

open Pass in
/-- **An interpolated text stands for the sum of its segments**: a string for each literal, the
tree itself for each binding, added up from the left. -/
theorem extract_of_segments (first : Segment) (rest : List Segment)
    (apart : (first :: rest).IsChain Segment.Apart)
    (bound : ∃ p ∈ first :: rest, p.isBinding) :
    (Frontend.standard.extract (String.ofList (Segment.join (first :: rest)))).result
      = .ok (some (rest.foldl (fun left p => .binary "+" left p.tree) first.tree)) := by
  have detected : Frontend.standard.detector (String.ofList (Segment.join (first :: rest))) = _ :=
    Segment.detect_join apart bound
  apply Frontend.extract_of_parsed
  · rw [detected]
  · rw [detected]
    show Frontend.parseSource _ = _
    rw [Frontend.parseSource, Segment.parse_joinWithPlus]
    rfl

/-- The tree of a binding that holds a sequence, `a,b`. -/
def pairTree : Expr := .sequence [.identifier "a", .identifier "b"]

/-- The tree of a binding that holds a conditional, `c?"x":d`. -/
def choiceTree : Expr :=
  .conditional (.identifier "c") (.literal (.string "x")) (.identifier "d")

theorem wellFormed_pairTree : pairTree.WellFormed := by
  refine .sequence (by decide) ?_
  simp only [List.mem_cons, List.not_mem_nil, or_false, forall_eq_or_imp, forall_eq]
  exact ⟨.identifier rfl, .identifier rfl⟩

theorem wellFormed_choiceTree : choiceTree.WellFormed :=
  .conditional (.identifier rfl) (.literal (.string "x")) (.identifier rfl)

/-- A binding of a sequence, with a line end and blanks around it. -/
def pairSegment : Segment :=
  .binding ['\n'] "a,b" [' ', '\u2003'] pairTree wellFormed_pairTree
    (Expr.prints_printed wellFormed_pairTree) (by decide) (by decide) (by decide)

/-- A literal of the characters that are escaped. -/
def escapedSegment : Segment := .literal "\"\\\n" (by decide) (by decide)

/-- A binding of a conditional, with nothing around it. -/
def choiceSegment : Segment :=
  .binding [] "c?\"x\":d" [] choiceTree wellFormed_choiceTree
    (Expr.prints_printed wellFormed_choiceTree) (by decide) (by decide) (by decide)

open Pass in
/-- Neither the loosest operators nor quotes and line ends leak into the sum. -/
theorem extract_escaped_between_bindings :
    (Frontend.standard.extract "\x7b\x7b\na,b \u2003\x7d\x7d\"\\\n\x7b\x7bc?\"x\":d\x7d\x7d").result
      = .ok (some (.binary "+" (.binary "+" pairTree (.string "\"\\\n")) choiceTree)) := by
  have apart : [pairSegment, escapedSegment, choiceSegment].IsChain Segment.Apart := by
    rw [List.isChain_cons_cons, List.isChain_cons_cons]
    exact ⟨.inl rfl, .inr rfl, .singleton _⟩
  exact extract_of_segments pairSegment [escapedSegment, choiceSegment] apart
    ⟨pairSegment, List.mem_cons_self, rfl⟩

end MiniTemplate
