import MiniTemplate.Proofs.Script.Denotation

/-!
# Following a rule

`Parser.Tells` says of a parser that whatever it yields is denoted by the symbols that it has passed
over, neither more nor fewer. A rule is followed forwards to see that: `Parser.Leads` says where it
leads from the symbols passed so far, and there is one lemma for each way it can go on. Rules that
yield only constructs without a tree are `Parser.Foreign`, and need not be followed.
-/

namespace MiniTemplate.Script

theorem Passed.weaken {s t : Stream} {ls : List Symbol} {n m : Nat} (passed : Passed s ls n t)
    (fewer : m ≤ n) : Passed s ls m t :=
  ⟨passed.text, Nat.le_trans (Nat.add_le_add_left fewer _) passed.unset⟩

namespace Parser

variable {α β : Type}

/-- **A parser tells what it has passed over**: the symbols denote its result, and it leaves as many
initialisers to be claimed as that has. -/
def Tells (x : Parser α) (denoted : List Symbol → α → Prop) (owed : α → Nat) : Prop :=
  ∀ s a t, x s = some (a, t) → ∃ ls, Passed s ls (owed a) t ∧ denoted ls a

/-- A parser of phrases of a rank tells what it has passed over. -/
abbrev TellsPhrase (x : Parser Phrase) (rank : Rank) : Prop :=
  Tells x (fun ls p => p.DenotedBy rank ls) Phrase.initialisers

theorem Tells.moves {x : Parser α} {denoted : List Symbol → α → Prop} {owed : α → Nat}
    (tells : Tells x denoted owed) : Moves x := by
  intro s a t run
  obtain ⟨ls, passed, -⟩ := tells s a t run
  exact ⟨ls, passed.weaken (Nat.zero_le _)⟩

/-- **Where a parser leads to** from a stream that has passed over symbols since `s`. -/
def Leads (s : Stream) (ls : List Symbol) (n : Nat) (u : Stream) (x : Parser α)
    (Q : α → List Symbol → Nat → Prop) : Prop :=
  Passed s ls n u → ∀ a t, x u = some (a, t) → ∃ ms m, Passed s ms m t ∧ Q a ms m

theorem tells_of_leads {x : Parser α} {denoted : List Symbol → α → Prop} {owed : α → Nat}
    (leads : ∀ s, Leads s [] 0 s x fun a ls n => denoted ls a ∧ owed a ≤ n) :
    Tells x denoted owed := by
  intro s a t run
  obtain ⟨ls, n, passed, holds, enough⟩ := leads s (.refl s) a t run
  exact ⟨ls, passed.weaken enough, holds⟩

theorem moves_of_leads {x : Parser α} (leads : ∀ s, Leads s [] 0 s x fun _ _ _ => True) :
    Moves x := by
  intro s a t run
  obtain ⟨ls, n, passed, -⟩ := leads s (.refl s) a t run
  exact ⟨ls, passed.weaken (Nat.zero_le n)⟩

theorem Moves.leads {x : Parser α} (moves : Moves x) {s u : Stream} {ls : List Symbol}
    {n : Nat} : Leads s ls n u x fun _ _ _ => True := by
  intro passed a t run
  obtain ⟨ms, passed'⟩ := moves u a t run
  exact ⟨_, _, passed.trans passed', trivial⟩

namespace Leads

variable {s u : Stream} {ls : List Symbol} {n : Nat} {x : Parser α} {f : α → Parser β}
  {P : α → List Symbol → Nat → Prop} {Q : β → List Symbol → Nat → Prop}

theorem pure {a : α} (holds : P a ls n) : Leads s ls n u (pure a) P := by
  rintro passed _ _ ⟨⟩
  exact ⟨ls, n, passed, holds⟩

theorem failure : Leads s ls n u failure P := by
  rintro _ _ _ ⟨⟩

theorem failure_bind {f : α → Parser β} : Leads s ls n u (Alternative.failure >>= f) Q := by
  rintro _ _ _ ⟨⟩

/-- A step that is taken apart by its runs. -/
theorem run (first : ∀ a v, x u = some (a, v) → ∃ ms m, Passed u ms m v ∧
    Leads s (ls ++ ms) (n + m) v (f a) Q) : Leads s ls n u (x >>= f) Q := by
  intro passed b t done
  obtain ⟨a, v, before, after⟩ := exists_of_bind done
  obtain ⟨ms, m, passed', later⟩ := first a v before
  exact later (passed.trans passed') b t after

theorem bind {denoted : List Symbol → α → Prop} {owed : α → Nat} (first : Tells x denoted owed)
    (next : ∀ a ms v, x u = some (a, v) → denoted ms a →
      Leads s (ls ++ ms) (n + owed a) v (f a) Q) : Leads s ls n u (x >>= f) Q := by
  refine .run fun a v before => ?_
  obtain ⟨ms, passed, holds⟩ := first u a v before
  exact ⟨ms, owed a, passed, next a ms v before holds⟩

/-- A step whose result does not matter. -/
theorem after (first : Moves x) (next : ∀ a ms v, Leads s (ls ++ ms) n v (f a) Q) :
    Leads s ls n u (x >>= f) Q := by
  refine .run fun a v before => ?_
  obtain ⟨ms, passed⟩ := first u a v before
  exact ⟨ms, 0, passed, next a ms v⟩

/-- A step that leads on from the symbols passed so far. -/
theorem seq (first : Leads s ls n u x P) (next : ∀ a ms m v, P a ms m → Leads s ms m v (f a) Q) :
    Leads s ls n u (x >>= f) Q := by
  intro passed b t done
  obtain ⟨a, v, before, after⟩ := exists_of_bind done
  obtain ⟨ms, m, passed, holds⟩ := first passed a v before
  exact next a ms m v holds passed b t after

/-- The last step. -/
theorem last {denoted : List Symbol → α → Prop} {owed : α → Nat} (tells : Tells x denoted owed)
    (holds : ∀ a ms, denoted ms a → P a (ls ++ ms) (n + owed a)) : Leads s ls n u x P := by
  intro passed a t done
  obtain ⟨ms, passed', denoted⟩ := tells u a t done
  exact ⟨ls ++ ms, n + owed a, passed.trans passed', holds a ms denoted⟩

/-- A step that only looks. -/
theorem look {a : α} (seen : x u = some (a, u)) (next : Leads s ls n u (f a) Q) :
    Leads s ls n u (x >>= f) Q := by
  intro passed b t done
  rw [bind_run seen] at done
  exact next passed b t done

/-- A step that only looks, whatever it sees. -/
theorem looks (seen : Looks x) (next : ∀ a, Leads s ls n u (f a) Q) :
    Leads s ls n u (x >>= f) Q := by
  intro passed b t done
  obtain ⟨a, v, before, after⟩ := exists_of_bind done
  rw [seen u a v before] at after
  exact next a passed b t after

/-- A step over the token at hand. -/
theorem advance {f : Unit → Parser β}
    (next : ∀ v, Leads s (ls ++ [.plain u.token]) n v (f ()) Q) :
    Leads s ls n u (Parser.advance >>= f) Q :=
  .run fun _ v before => ⟨_, 0, .step (eq_of_advance before), next v⟩

theorem flawIf {f : Unit → Parser β} {p : Bool}
    (next : ∀ v, v.token = u.token → Leads s ls n v (f ()) Q) :
    Leads s ls n u (Parser.flawIf p >>= f) Q := by
  refine .run fun _ v before => ⟨[], 0, passed_of_flawIf before, ?_⟩
  rw [List.append_nil, Nat.add_zero]
  exact next v (eq_of_flawIf before).1

theorem expectMark {f : Unit → Parser β} {m : String}
    (next : ∀ v, Leads s (ls ++ [.mark m]) n v (f ()) Q) :
    Leads s ls n u (Parser.expectMark m >>= f) Q := by
  refine .run fun _ v before => ?_
  unfold Parser.expectMark at before
  rw [bind_run (atMark_run m u)] at before
  split at before
  · rename_i hit
    have passed := Passed.step (eq_of_advance before)
    rw [beq_iff_eq.1 hit] at passed
    exact ⟨[.mark m], 0, passed, next v⟩
  · cases before

theorem skipMark {f : Bool → Parser β} {m : String}
    (hit : u.token = .mark m → ∀ v, Leads s (ls ++ [.mark m]) n v (f true) Q)
    (miss : u.token ≠ .mark m → Leads s ls n u (f false) Q) :
    Leads s ls n u (Parser.skipMark m >>= f) Q := by
  by_cases token : u.token = .mark m
  · refine .run fun found v before => ?_
    unfold Parser.skipMark at before
    rw [bind_run (atMark_run m u), token, beq_self_eq_true, if_pos rfl] at before
    obtain ⟨_, w, step, ⟨⟩⟩ := exists_of_bind before
    have passed := Passed.step (eq_of_advance step)
    rw [token] at passed
    exact ⟨[.mark m], 0, passed, hit token _⟩
  · exact .look (skipMark_miss token) (miss token)

theorem takeWord {f : Unit → Parser β}
    (next : ∀ v, Leads s (ls ++ [.plain u.token]) n v (f ()) Q) :
    Leads s ls n u (Parser.takeWord >>= f) Q :=
  .run fun _ v before => ⟨_, 0, passed_of_takeWord before, next v⟩

/-- A step to a stream that was come to another way. -/
theorem set {f : PUnit → Parser β} {v : Stream} {ms : List Symbol} {m : Nat}
    (passed : Passed s ms m v) (next : Leads s ms m v (f ⟨⟩) Q) : Leads s ls n u (MonadStateOf.set v >>= f) Q := by
  intro _ b t done
  rw [bind_run (set_run u v)] at done
  exact next passed b t done

/-- A target claims its own initialisers. -/
theorem claimTarget {f : Unit → Parser β} {p : Phrase} (owed : p.initialisers ≤ n)
    (next : ∀ v, Leads s ls 0 v (f ()) Q) : Leads s ls n u (Parser.claimTarget p >>= f) Q := by
  intro passed b t done
  obtain ⟨_, v, claimed, done⟩ := exists_of_bind done
  unfold Parser.claimTarget at claimed
  cases target : p.target? with
  | none =>
    rw [target] at claimed
    cases claimed
  | some k =>
    rw [target] at claimed
    cases claimed
    have few := Phrase.le_initialisers_of_target? p target
    have unset := passed.unset
    refine next { u with unset := u.unset - k } ⟨passed.text, ?_⟩ b t done
    change s.unset + 0 ≤ u.unset - k
    omega

end Leads

/-- **Items up to a closing punctuator.** The items that may be holes are those that a comma follows
at once. -/
theorem Tells.separated {x : Parser α} {denoted : List Symbol → α → Prop} {owed : α → Nat}
    (tells : Tells x denoted owed) {close : String} (closes : close ≠ ",") (hole : α → Prop)
    (bare : ∀ s a t, x s = some (a, t) → hole a → t.token = .mark ",") (fuel : Nat) :
    Tells (separated close x fuel) (fun ls found => Separated close denoted hole ls found.1)
      (fun found => total owed found.1) := by
  induction fuel with
  | zero =>
    rintro s a t ⟨⟩
  | succ fuel ih =>
    refine tells_of_leads fun s => ?_
    rw [Parser.separated]
    refine .skipMark (fun _ v => .pure ⟨.none, by simp⟩) fun _ => ?_
    simp only [Bool.false_eq_true, if_false]
    refine .bind tells fun a ms v run first => ?_
    rw [List.nil_append, Nat.zero_add]
    refine .skipMark (fun closing w => .pure ⟨.last first ?_, by simp⟩) fun _ => ?_
    · intro isHole
      rw [bare s a v run isHole] at closing
      exact closes (Token.mark.inj closing).symm
    · simp only [Bool.false_eq_true, if_false]
      refine .expectMark fun w => .skipMark (fun _ v => .pure ⟨?_, by simp⟩) fun _ => ?_
      · simpa using Separated.more first .none
      · simp only [Bool.false_eq_true, if_false]
        refine .bind ih fun found ms' v' _ later => .pure ⟨?_, by simp⟩
        simpa using Separated.more first later

theorem Tells.list {x : Parser α} {denoted : List Symbol → α → Prop} {owed : α → Nat}
    (tells : Tells x denoted owed) {close : String} (closes : close ≠ ",") (hole : α → Prop)
    (bare : ∀ s a t, x s = some (a, t) → hole a → t.token = .mark ",") :
    Tells (list close x) (fun ls found => Separated close denoted hole ls found.1)
      (fun found => total owed found.1) := by
  refine tells_of_leads fun s => .look (fuel_run s) (.last (tells.separated closes hole bare _) ?_)
  intro found ms read
  simpa using read

/-- A phrase of a rank is denoted by the symbols passed, and at least as many initialisers await an
assignment as it has. -/
abbrev Fits (rank : Rank) (p : Phrase) (ls : List Symbol) (n : Nat) : Prop :=
  p.DenotedBy rank ls ∧ p.initialisers ≤ n

theorem fits_foreign (construct : Construct) (rank : Rank) (ls : List Symbol) (n : Nat) :
    Fits rank (.foreign construct) ls n :=
  ⟨Phrase.denotedBy_foreign construct rank ls, Nat.zero_le n⟩

/-- **A parser only yields constructs that trees do not hold**, and skips nothing. -/
def Foreign (x : Parser Phrase) : Prop :=
  ∀ s p t, x s = some (p, t) → (∃ ls, Passed s ls 0 t) ∧ ∃ construct, p = .foreign construct

theorem Foreign.tells {x : Parser Phrase} (foreign : Foreign x) (rank : Rank) :
    TellsPhrase x rank := by
  intro s p t run
  obtain ⟨⟨ls, passed⟩, construct, rfl⟩ := foreign s p t run
  exact ⟨ls, passed, Phrase.denotedBy_foreign construct rank ls⟩

theorem Foreign.leads {x : Parser Phrase} (foreign : Foreign x) {s u : Stream} {ls : List Symbol}
    {n : Nat} (rank : Rank) : Leads s ls n u x (Fits rank) := by
  intro passed p t run
  obtain ⟨⟨ms, across⟩, construct, rfl⟩ := foreign u p t run
  exact ⟨_, _, passed.trans across, fits_foreign _ _ _ _⟩

@[grind ←]
theorem foreign_pure (construct : Construct) : Foreign (pure (.foreign construct)) := by
  rintro s _ t ⟨⟩
  exact ⟨⟨[], .refl s⟩, construct, rfl⟩

@[grind ←]
theorem foreign_failure : Foreign failure := by
  rintro s p t ⟨⟩

@[grind ←]
theorem Moves.foreign {x : Parser α} {f : α → Parser Phrase} (first : Moves x)
    (next : ∀ a, Foreign (f a)) : Foreign (x >>= f) := by
  intro s p t run
  obtain ⟨a, u, before, after⟩ := exists_of_bind run
  obtain ⟨ls, passed⟩ := first s a u before
  obtain ⟨⟨ms, passed'⟩, foreign⟩ := next a u p t after
  exact ⟨⟨ls ++ ms, passed.trans passed'⟩, foreign⟩

end Parser

end MiniTemplate.Script
