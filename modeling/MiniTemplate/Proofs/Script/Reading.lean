import MiniTemplate.Proofs.Script.Lexeme
import MiniTemplate.Script.Stream

/-!
# Streams over lexemes

`Reads s ls u` says that a stream passes from `s` over the lexemes `ls` to `u`, which stands
at the token after them. A text that spells lexemes is such a stream
(`exists_reads_of_spells`), so the grammar's rules can be followed without looking at
characters. `Stream.left` bounds the tokens ahead and falls with every lexeme: it is what
the rules' fuel and depth are measured against.
-/

namespace MiniTemplate.Script

/-- A bound on the tokens ahead, the one at hand among them. -/
def Stream.left (s : Stream) : Nat := s.rest.length + if s.token = .finish then 0 else 1

theorem Stream.left_lt_fuel (s : Stream) : s.left < s.fuel := by
  unfold left fuel
  split <;> omega

/-- **A stream passes over lexemes.** A lexeme that goes on with a template is met as a brace. -/
inductive Reads : Stream → List Lexeme → Stream → Prop where
  | done (s : Stream) : Reads s [] s
  | plain {s t u : Stream} {l : Lexeme} {ls : List Lexeme} (plain : l.resumes = false)
      (token : s.token = l.token) (next : s.next? = some t) (fewer : t.left < s.left)
      (later : Reads t ls u) : Reads s (l :: ls) u
  | resumption {s t u : Stream} {text : String} {last : Bool} {rest : List Char}
      {ls : List Lexeme} (token : s.token = .mark "\x7d")
      (read : Token.template? s.rest = some (.template (some text) last, rest))
      (next : { s with token := .template (some text) last, rest }.next? = some t)
      (fewer : t.left < s.left) (later : Reads t ls u) :
      Reads s (.resumption text last :: ls) u

namespace Reads

variable {s t u : Stream} {ls ms : List Lexeme}

theorem eq_of_nil (reads : Reads s [] u) : u = s := by
  cases reads
  rfl

theorem append_iff : Reads s (ls ++ ms) u ↔ ∃ t, Reads s ls t ∧ Reads t ms u := by
  constructor
  · intro reads
    induction ls generalizing s with
    | nil => exact ⟨s, .done s, reads⟩
    | cons l ls ih =>
      cases reads with
      | plain plain token next fewer later =>
        obtain ⟨t, first, second⟩ := ih later
        exact ⟨t, .plain plain token next fewer first, second⟩
      | resumption token read next fewer later =>
        obtain ⟨t, first, second⟩ := ih later
        exact ⟨t, .resumption token read next fewer first, second⟩
  · rintro ⟨t, first, second⟩
    induction first with
    | done => exact second
    | plain plain token next fewer _ ih => exact .plain plain token next fewer (ih second)
    | resumption token read next fewer _ ih => exact .resumption token read next fewer (ih second)

/-- A lexeme that does not go on with a template is the token at hand. -/
theorem cons_plain {l : Lexeme} (plain : l.resumes = false) (reads : Reads s (l :: ls) u) :
    ∃ t, s.token = l.token ∧ s.next? = some t ∧ t.left < s.left ∧ Reads t ls u := by
  cases reads with
  | plain _ token next fewer later => exact ⟨_, token, next, fewer, later⟩
  | resumption => cases plain

theorem cons_mark {m : String} (reads : Reads s (.mark m :: ls) u) :
    ∃ t, s.token = .mark m ∧ s.next? = some t ∧ t.left < s.left ∧ Reads t ls u :=
  cons_plain rfl reads

theorem left_le (reads : Reads s ls u) : u.left + ls.length ≤ s.left := by
  induction reads with
  | done => simp
  | plain _ _ _ fewer _ ih | resumption _ _ _ fewer _ ih =>
    simp only [List.length_cons]
    omega

end Reads

/-! ## From texts to streams -/

theorem next?_of_scan {s : Stream} {gap cs rest : List Char} {token : Token}
    (text : s.rest = gap ++ cs) (blank : gap.all isSpace)
    (tight : ∀ newline, skipGaps? newline .blank cs = some (newline, cs))
    (scan : Token.scan? cs = some (token, rest)) :
    ∃ newline, s.next? = some { s with token, newline, rest } := by
  obtain ⟨newline, skipped⟩ := skipGaps?_append blank tight false
  refine ⟨newline, ?_⟩
  simp [Stream.next?, text, skipped, scan]

theorem goesOn_brace (c : Char) : goesOn "\x7d" c = false := by
  simp [goesOn, punctuators, List.isPrefixOf]

theorem Token.isWord_eq_false {t : Token} {w : String} (other : ∀ escaped, t ≠ .word w escaped) :
    t.isWord w = false := by
  cases t with
  | word v escaped =>
    have differs : v ≠ w := fun same => other escaped (by rw [same])
    simpa [Token.isWord] using differs
  | _ => rfl

theorem Lexeme.token_ne_finish (l : Lexeme) : l.token ≠ .finish := by
  cases l <;> simp [Lexeme.token]

theorem Lexeme.eq_mark_of_token {l : Lexeme} {m : String} (token : l.token = .mark m) :
    l = .mark m := by
  cases l <;> simp_all [Lexeme.token]

/-- **A text that spells lexemes is a stream over them**, up to the token at the start of what
stands after it. -/
theorem exists_reads_of_spells_before {ls : List Lexeme} {cs : List Char} (spells : Spells ls cs)
    (valid : ∀ l ∈ ls, l.valid) (after : List Char)
    (stops : ∀ l ∈ ls, ∀ c ∈ after.head?, l.stopsBefore c)
    (tight : ∀ newline, skipGaps? newline .blank after = some (newline, after)) {token : Token}
    {beyond : List Char} (scan : Token.scan? after = some (token, beyond))
    (short : (beyond.length + if token = .finish then 0 else 1) ≤ after.length) {s : Stream}
    (text : s.rest = cs ++ after) :
    ∃ t u, s.next? = some t ∧ Reads t ls u ∧ t.left ≤ (cs ++ after).length ∧
      u.token = token ∧ u.flawed = s.flawed ∧ u.unset = s.unset := by
  induction spells generalizing s with
  | @done gap blank =>
    obtain ⟨newline, next⟩ := next?_of_scan text blank tight scan
    refine ⟨_, _, next, .done _, ?_, rfl, rfl, rfl⟩
    simp only [Stream.left, List.length_append]
    omega
  | @next l ls gap rest blank before later ih =>
    have itself := valid l List.mem_cons_self
    have others := fun m member => valid m (List.mem_cons_of_mem l member)
    have stopsLater := fun m member => stops m (List.mem_cons_of_mem l member)
    have stopsHere : ∀ c ∈ (rest ++ after).head?, l.stopsBefore c := by
      intro c member
      cases rest with
      | nil => exact stops l List.mem_cons_self c member
      | cons d rest => exact before c member
    obtain ⟨c, cs, first, -⟩ := Lexeme.exists_first itself
    have tight := Lexeme.skipGaps?_text itself stopsHere
    rw [List.append_assoc, List.append_assoc] at text ⊢
    cases resumes : l.resumes with
    | false =>
      obtain ⟨newline, next⟩ :=
        next?_of_scan text blank tight (Lexeme.scan?_text itself resumes stopsHere)
      obtain ⟨t, u, next', reads, left, last, flawed, unset⟩ :=
        ih others stopsLater (s := { s with token := l.token, newline, rest := rest ++ after }) rfl
      have fewer : t.left
          < ({ s with token := l.token, newline, rest := rest ++ after } : Stream).left := by
        simp only [Stream.left, if_neg l.token_ne_finish] at left ⊢
        omega
      refine ⟨_, u, next, .plain resumes rfl next' fewer reads, ?_, last, flawed, unset⟩
      simp only [Stream.left, if_neg l.token_ne_finish, first, List.length_append,
        List.length_cons]
      omega
    | true =>
      obtain ⟨value, last, rfl⟩ : ∃ value last, l = .resumption value last := by
        cases l <;> simp_all [Lexeme.resumes]
      -- The scanner takes the brace only; the parser then has template text read from there.
      have brace :
          Token.scan? ('\x7d' :: (Quotation.chunkText value.toList last ++ (rest ++ after)))
            = some (.mark "\x7d", Quotation.chunkText value.toList last ++ (rest ++ after)) :=
        scan?_mark (m := "\x7d") (by decide) fun c _ => goesOn_brace c
      obtain ⟨newline, next⟩ := next?_of_scan text blank tight brace
      have read := Token.template?_chunkText value last (rest ++ after)
      have visible := Quotation.length_le_length_chunkText value.toList last
      obtain ⟨t, u, next', reads, left, finish, flawed, unset⟩ :=
        ih others stopsLater
          (s := { s with token := .template (some value) last, newline, rest := rest ++ after }) rfl
      refine ⟨_, u, next, .resumption rfl read next' ?_ reads, ?_, finish, flawed, unset⟩
      · simp only [Stream.left, List.length_append] at left ⊢
        simp only [reduceCtorEq, if_false]
        omega
      · simp only [Stream.left, reduceCtorEq, if_false, Lexeme.text, List.length_append,
          List.length_cons]
        omega

/-- **A text that spells lexemes is a stream over them**, up to its end. -/
theorem exists_reads_of_spells {ls : List Lexeme} {cs : List Char} (spells : Spells ls cs)
    (valid : ∀ l ∈ ls, l.valid) {s : Stream} (text : s.rest = cs) :
    ∃ t u, s.next? = some t ∧ Reads t ls u ∧ t.left ≤ cs.length ∧
      u.token = .finish ∧ u.flawed = s.flawed ∧ u.unset = s.unset := by
  rw [← List.append_nil cs] at text ⊢
  exact exists_reads_of_spells_before spells valid [] (by simp) (fun _ => rfl) rfl (by simp) text

/-! ## Running parsers -/

namespace Parser

variable {α β : Type} {s t : Stream} {m w : String}

theorem bind_run {x : Parser α} {f : α → Parser β} {a : α} (run : x s = some (a, t)) :
    (x >>= f) s = f a t := by
  show (x s).bind (fun p => f p.1 p.2) = f a t
  rw [run]
  rfl

theorem bind_congr_run {x y : Parser α} {f : α → Parser β} (same : x s = y t) :
    (x >>= f) s = (y >>= f) t := by
  show (x s).bind (fun p => f p.1 p.2) = (y t).bind fun p => f p.1 p.2
  rw [same]

theorem pure_run (a : α) (s : Stream) : (pure a : Parser α) s = some (a, s) := rfl

theorem get_run (s : Stream) : (get : Parser Stream) s = some (s, s) := rfl

theorem set_run (s t : Stream) : (set t : Parser PUnit) s = some (⟨⟩, t) := rfl

theorem token_run (s : Stream) : token s = some (s.token, s) := rfl

theorem ahead_run (s : Stream) : ahead s = some (s.next?, s) := rfl

theorem fuel_run (s : Stream) : fuel s = some (s.fuel, s) := rfl

theorem atMark_run (m : String) (s : Stream) : atMark m s = some (s.token == .mark m, s) := rfl

theorem atWord_run (w : String) (s : Stream) : atWord w s = some (s.token.isWord w, s) := rfl

theorem advance_run (next : s.next? = some t) : advance s = some ((), t) := by
  unfold advance
  rw [bind_run (get_run s), next]
  rfl

theorem skipMark_hit (hit : s.token = .mark m) (next : s.next? = some t) :
    skipMark m s = some (true, t) := by
  unfold skipMark
  rw [bind_run (atMark_run m s), hit]
  simp only [beq_self_eq_true, if_true]
  rw [bind_run (advance_run next), pure_run]

theorem skipMark_miss (miss : s.token ≠ .mark m) : skipMark m s = some (false, s) := by
  unfold skipMark
  rw [bind_run (atMark_run m s), beq_false_of_ne miss]
  rfl

theorem expectMark_hit (hit : s.token = .mark m) (next : s.next? = some t) :
    expectMark m s = some ((), t) := by
  unfold expectMark
  rw [bind_run (atMark_run m s), hit]
  simp only [beq_self_eq_true, if_true]
  exact advance_run next

theorem flawIf_false (s : Stream) : flawIf false s = some ((), s) := rfl

theorem takeWord_run (word : s.token = .word w false) (next : s.next? = some t) :
    takeWord s = some ((), t) := by
  unfold takeWord
  rw [bind_run (token_run s), word]
  exact advance_run next

end Parser

end MiniTemplate.Script
