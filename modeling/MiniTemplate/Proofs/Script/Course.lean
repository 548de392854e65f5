import MiniTemplate.Proofs.Script.Greedy

/-!
# The course of an expression

An expression is followed symbol by symbol: outside of all brackets an operand, an operator or the
name of a member is due, and within brackets only their closing is kept in mind. `Course.step` is
deterministic, and says of a brace whether it closes an object or resumes template text. Every
expression of the grammar runs from an operand that is due to an operator that is due
(`Denotes.follows`). So two divisions of a text into the symbols of expressions agree as far as
both go, and one goes further than the other only with a token that continues an expression.
-/

namespace MiniTemplate.Script

/-- What an expression may be within. -/
inductive Bracket where
  /-- Parentheses, brackets or braces. -/
  | group
  /-- The first branch of a conditional. -/
  | branch
  /-- A substitution in a template. -/
  | substitution
  deriving DecidableEq

/-- What is due outside of all brackets. -/
inductive Due where
  | operand
  | operator
  /-- The name of a member, or the brackets of an optional link. -/
  | member
  deriving DecidableEq

/-- What is due once the brackets are closed, and the brackets, innermost first. -/
structure Course where
  due : Due
  within : List Bracket
  deriving DecidableEq

/-- What a symbol makes of the innermost bracket: it stays, is closed, or has another one within. -/
def Bracket.step (b : Bracket) : Symbol → Option (List Bracket)
  | .plain (.mark m) =>
    if ["(", "[", "\x7b"].contains m then some [.group, b]
    else if [")", "]", "\x7d"].contains m then if b = .group then some [] else none
    else if m = "?" then some [.branch, b]
    else if m = ":" then
      -- In an object a colon stands after a key.
      match b with
      | .branch => some []
      | .group => some [b]
      | .substitution => none
    else some [b]
  | .plain (.template _ last) => some (if last then [b] else [.substitution, b])
  | .plain .finish => none
  | .plain _ => some [b]
  | .resumed _ last =>
    if b = .substitution then some (if last then [] else [b]) else none
  | .regularExpression => none

/-- What a symbol outside of all brackets makes due. -/
def Due.step : Due → Symbol → Option Course
  | .operand, .plain (.word w _) =>
    some ⟨if ["typeof", "void", "delete"].contains w then .operand else .operator, []⟩
  | .operand, .plain (.number _) | .operand, .plain (.string _) => some ⟨.operator, []⟩
  | .operand, .plain (.template _ last) =>
    some ⟨.operator, if last then [] else [.substitution]⟩
  | .operand, .plain (.mark m) =>
    if ["(", "[", "\x7b"].contains m then some ⟨.operator, [.group]⟩
    else if ["+", "-", "~", "!"].contains m then some ⟨.operand, []⟩
    else none
  | .operator, .plain t =>
    if (binaryOperator? {} t).isSome || t == .mark "," then some ⟨.operand, []⟩
    else if t == .mark "?" then some ⟨.operand, [.branch]⟩
    else if t == .mark "." || t == .mark "?." then some ⟨.member, []⟩
    else if t == .mark "(" || t == .mark "[" then some ⟨.operator, [.group]⟩
    else none
  | .member, .plain (.word ..) => some ⟨.operator, []⟩
  | .member, .plain (.mark m) =>
    if m == "(" || m == "[" then some ⟨.operator, [.group]⟩ else none
  | _, _ => none

namespace Course

/-- **Follows an expression by one symbol.** -/
def step (s : Course) (l : Symbol) : Option Course :=
  match s.within with
  | [] => s.due.step l
  | b :: rest => (b.step l).map fun bs => ⟨s.due, bs ++ rest⟩

/-- **Follows an expression by several symbols.** -/
def run (s : Course) (ls : List Symbol) : Option Course := ls.foldlM step s

variable {s t u : Course} {l : Symbol} {ls ms : List Symbol}

theorem run_cons (first : s.step l = some t) : s.run (l :: ls) = t.run ls := by
  simp [run, first]

theorem run_outside {due : Due} (first : due.step l = some t) : run ⟨due, []⟩ (l :: ls) = t.run ls :=
  run_cons first

theorem run_append (first : s.run ls = some t) : s.run (ls ++ ms) = t.run ms := by
  rw [run] at first
  rw [run, List.foldlM_append, first]
  rfl

theorem step_of_run_cons (follows : s.run (l :: ls) = some u) :
    ∃ t, s.step l = some t ∧ t.run ls = some u := by
  simpa [run, Option.bind_eq_some_iff] using follows

end Course

/-! ## Within brackets -/

/-- Symbols that leave a bracket as it is. -/
def Keeps (b : Bracket) (ls : List Symbol) : Prop :=
  ∀ due rest, Course.run ⟨due, b :: rest⟩ ls = some ⟨due, b :: rest⟩

/-- Symbols that close a bracket at last. -/
def Closes (b : Bracket) (ls : List Symbol) : Prop :=
  ∀ due rest, Course.run ⟨due, b :: rest⟩ ls = some ⟨due, rest⟩

section
variable {b c : Bracket} {l : Symbol} {ls ms : List Symbol}

theorem Course.step_within {bs : List Bracket} (known : b.step l = some bs) (due : Due)
    (rest : List Bracket) : Course.step ⟨due, b :: rest⟩ l = some ⟨due, bs ++ rest⟩ := by
  simp [Course.step, known]

theorem Keeps.nil : Keeps b [] := fun _ _ => rfl

theorem Keeps.cons (kept : b.step l = some [b]) (later : Keeps b ls) : Keeps b (l :: ls) := by
  intro due rest
  rw [Course.run_cons (Course.step_within kept due rest)]
  exact later due rest

theorem Keeps.append (first : Keeps b ls) (second : Keeps b ms) : Keeps b (ls ++ ms) := by
  intro due rest
  rw [Course.run_append (first due rest)]
  exact second due rest

theorem Keeps.closes (first : Keeps b ls) (second : Closes b ms) : Closes b (ls ++ ms) := by
  intro due rest
  rw [Course.run_append (first due rest)]
  exact second due rest

theorem Closes.single (closed : b.step l = some []) : Closes b [l] := by
  intro due rest
  rw [Course.run_cons (Course.step_within closed due rest)]
  rfl

theorem Closes.cons (kept : b.step l = some [b]) (later : Closes b ls) : Closes b (l :: ls) := by
  intro due rest
  rw [Course.run_cons (Course.step_within kept due rest)]
  exact later due rest

/-- A bracket that is opened and closed again leaves the one around it as it is. -/
theorem Closes.keeps (opened : b.step l = some [c, b]) (closes : Closes c ls) :
    Keeps b (l :: ls) := by
  intro due rest
  rw [Course.run_cons (Course.step_within opened due rest)]
  exact closes due (b :: rest)

end

/-! ## Lists -/

theorem closes_separated {α : Type} {close : String} {item : List Symbol → α → Prop}
    {hole : α → Prop} {ls : List Symbol} {as : List α}
    (known : Bracket.group.step (.mark close) = some [])
    (items : Separated close item hole ls as)
    (each : ∀ ms a, ms.length < ls.length → item ms a → Keeps .group ms) : Closes .group ls := by
  induction items with
  | none => exact .single known
  | last first _ => exact (each _ _ (by simp) first).closes (.single known)
  | @more ls ms a as first _ ih =>
    have comma : Bracket.group.step (.mark ",") = some [.group] := by decide
    rw [List.length_append, List.length_cons] at each
    refine (each ls a (by omega) first).closes (.cons comma (ih fun ns b short item => ?_))
    exact each ns b (by omega) item

theorem closes_substitutions {value : List Symbol → Expr → Prop} {last : Bool} {ls : List Symbol}
    {quasis : List String} {es : List Expr} (rest : Substitutions value last ls quasis es)
    (each : ∀ ms e, ms.length < ls.length → value ms e → Keeps .substitution ms) :
    (last = true → ls = []) ∧ (last = false → Closes .substitution ls) := by
  induction rest with
  | none => simp
  | @more ls ms e text last quasis es first _ ih =>
    rw [List.length_append, List.length_cons] at each
    refine ⟨by simp, fun _ => (each ls e (by omega) first).closes ?_⟩
    obtain ⟨nothing, closes⟩ := ih fun ns a short item => each ns a (by omega) item
    cases last with
    | true =>
      rw [nothing rfl]
      exact .single rfl
    | false => exact .cons rfl (closes rfl)

/-! ## Outside of brackets -/

/-- **The symbols of an expression can be followed**, on their own and within brackets. -/
structure Follows (ls : List Symbol) : Prop where
  outside : Course.run ⟨.operand, []⟩ ls = some ⟨.operator, []⟩
  within : ∀ b, Keeps b ls

namespace Follows

variable {l : Symbol} {ls ms : List Symbol}

theorem single (starts : Due.operand.step l = some ⟨.operator, []⟩)
    (kept : ∀ b : Bracket, b.step l = some [b]) : Follows [l] :=
  ⟨by rw [Course.run_outside starts]; rfl, fun b => .cons (kept b) .nil⟩

theorem brackets {c : Bracket} (starts : Due.operand.step l = some ⟨.operator, [c]⟩)
    (opened : ∀ b : Bracket, b.step l = some [c, b]) (closes : Closes c ls) : Follows (l :: ls) :=
  ⟨by rw [Course.run_outside starts]; exact closes .operator [], fun b => closes.keeps (opened b)⟩

theorem before (starts : Due.operand.step l = some ⟨.operand, []⟩)
    (kept : ∀ b : Bracket, b.step l = some [b]) (later : Follows ls) : Follows (l :: ls) :=
  ⟨by rw [Course.run_outside starts]; exact later.outside, fun b => .cons (kept b) (later.within b)⟩

theorem linked (first : Follows ls)
    (outside : Course.run ⟨.operator, []⟩ ms = some ⟨.operator, []⟩) (within : ∀ b, Keeps b ms) :
    Follows (ls ++ ms) :=
  ⟨by rw [Course.run_append first.outside]; exact outside,
    fun b => (first.within b).append (within b)⟩

theorem joined (first : Follows ls) (joins : Due.operator.step l = some ⟨.operand, []⟩)
    (kept : ∀ b : Bracket, b.step l = some [b]) (second : Follows ms) :
    Follows (ls ++ l :: ms) :=
  first.linked (by rw [Course.run_outside joins]; exact second.outside)
    fun b => .cons (kept b) (second.within b)

theorem member (first : Follows ls) (optional : Bool) (w : String) (escaped : Bool) :
    Follows (ls ++ [.mark (if optional then "?." else "."), .plain (.word w escaped)]) := by
  have point : ∀ optional : Bool,
      Due.operator.step (.mark (if optional then "?." else ".")) = some ⟨.member, []⟩ := by
    decide
  refine first.linked ?_ fun b => .cons ?_ (.cons rfl .nil)
  · rw [Course.run_outside (point optional)]
    rfl
  · cases optional <;> rfl

/-- An access or a call in brackets, with the punctuator of an optional one. -/
theorem link (first : Follows ls) (optional : Bool) {m : String} (known : m = "[" ∨ m = "(")
    (closes : Closes .group ms) : Follows (ls ++ (optionalPoint optional ++ .mark m :: ms)) := by
  have opened : ∀ b : Bracket, b.step (.mark m) = some [.group, b] := by
    rcases known with rfl | rfl <;> exact fun _ => rfl
  have here : Due.operator.step (.mark m) = some ⟨.operator, [.group]⟩ := by
    rcases known with rfl | rfl <;> decide
  have afterPoint : Due.member.step (.mark m) = some ⟨.operator, [.group]⟩ := by
    rcases known with rfl | rfl <;> decide
  cases optional with
  | false =>
    refine first.linked ?_ fun b => closes.keeps (opened b)
    rw [optionalPoint, if_neg Bool.false_ne_true, List.nil_append, Course.run_outside here]
    exact closes .operator []
  | true =>
    have point : Due.operator.step (.mark "?.") = some ⟨.member, []⟩ := by decide
    refine first.linked ?_ fun b => .cons rfl (closes.keeps (opened b))
    rw [optionalPoint, if_pos rfl, List.singleton_append, Course.run_outside point,
      Course.run_outside afterPoint]
    exact closes .operator []

theorem conditional {ns : List Symbol} (first : Follows ls) (second : Follows ms)
    (third : Follows ns) : Follows (ls ++ .mark "?" :: (ms ++ .mark ":" :: ns)) := by
  have asked : Due.operator.step (.mark "?") = some ⟨.operand, [.branch]⟩ := by decide
  have closes : Closes .branch (ms ++ [.mark ":"]) := (second.within _).closes (.single rfl)
  have layout : ms ++ .mark ":" :: ns = ms ++ [.mark ":"] ++ ns := by simp
  rw [layout]
  refine first.linked ?_ fun b => Keeps.append (closes.keeps rfl) (third.within b)
  rw [Course.run_outside asked, Course.run_append (closes .operand [])]
  exact third.outside

theorem sequence {rows : List (List Symbol)} (first : Follows ls)
    (others : ∀ row ∈ rows, Follows row) : Follows (ls ++ rows.flatMap (.mark "," :: ·)) := by
  induction rows generalizing ls with
  | nil => simpa using first
  | cons row rows ih =>
    have comma : Due.operator.step (.mark ",") = some ⟨.operand, []⟩ := by decide
    have longer := first.joined comma (fun _ => rfl) (others row List.mem_cons_self)
    simpa using ih longer fun other member => others other (List.mem_cons_of_mem row member)

end Follows

/-! ## The grammar -/

/-- Operators leave brackets as they are. -/
theorem Bracket.step_operator {t : Token} {entry : String × Nat}
    (known : binaryOperator? {} t = some entry) (b : Bracket) : b.step (.plain t) = some [b] := by
  cases t with
  | mark m =>
    have apart : binaryOperators.all
        fun entry => ["(", "[", "\x7b", ")", "]", "\x7d", "?", ":"].all (· != entry.1) := by
      decide
    simp only [binaryOperator?] at known
    have same : entry.1 = m := by simpa using List.find?_some known
    have other := List.all_eq_true.1 apart entry (List.mem_of_find?_eq_some known)
    rw [same] at other
    simp only [List.all_cons, List.all_nil, Bool.and_true, Bool.and_eq_true, bne_iff_ne] at other
    simp [Bracket.step, other, Ne.symm]
  | word w escaped => rfl
  | _ => cases known

/-- All shorter expressions can be followed. -/
def Below (n : Nat) : Prop :=
  ∀ ms : List Symbol, ms.length < n → ∀ rank e, Denotes rank ms e → Follows ms

section
variable {n : Nat} {ls : List Symbol} {e : Expr}

theorem Below.element (below : Below n) (short : ls.length < n) {item : Option Expr}
    (element : IsElement (Denotes .assignment) ls item) : Keeps .group ls := by
  cases element with
  | hole => exact .nil
  | plain item => exact (below ls short _ _ item).within _
  | @spread ms e item =>
    rw [List.length_cons] at short
    exact .cons rfl ((below ms (by omega) _ _ item).within _)

theorem Below.argument (below : Below n) (short : ls.length < n)
    (argument : IsArgument (Denotes .assignment) ls e) : Keeps .group ls := by
  cases argument with
  | plain item => exact (below ls short _ _ item).within _
  | @spread ms e item =>
    rw [List.length_cons] at short
    exact .cons rfl ((below ms (by omega) _ _ item).within _)

theorem Below.key (below : Below n) (short : ls.length < n) {computed : Bool}
    (key : IsPropertyKey (Denotes .assignment) ls e computed) : Keeps .group ls := by
  cases key with
  | name w escaped => exact .cons rfl .nil
  | string text => exact .cons rfl .nil
  | number x => exact .cons rfl .nil
  | @computed ms e inside =>
    rw [List.length_cons, List.length_append] at short
    have closed : Closes .group [.mark "]"] := .single rfl
    exact (((below ms (by omega) _ _ inside).within _).closes closed).keeps rfl

theorem Below.property (below : Below n) (short : ls.length < n) {property : Property Expr}
    (item : IsProperty (Denotes .assignment) ls property) : Keeps .group ls := by
  cases item with
  | @pair ls ms key e computed first second =>
    rw [List.length_append, List.length_cons] at short
    have value := (below ms (by omega) _ _ second).within .group
    exact (below.key (by omega) first).append (.cons rfl value)
  | shorthand escaped named => exact .cons rfl .nil
  | @spread ms e item =>
    rw [List.length_cons] at short
    exact .cons rfl ((below ms (by omega) _ _ item).within _)

theorem Below.operand (below : Below ls.length) (denoted : Denotes .operand ls e) :
    Follows ls := by
  cases denoted with
  | @name w escaped named =>
    have apart : ["typeof", "void", "delete"].all fun w => !isName w := by decide
    have other : ["typeof", "void", "delete"].contains w = false := by
      rw [Bool.eq_false_iff, ne_eq, List.contains_iff_mem]
      intro member
      have keyword := List.all_eq_true.1 apart w member
      rw [named] at keyword
      cases keyword
    exact .single (by simp only [Due.step, other]; rfl) fun _ => rfl
  | null escaped => exact .single rfl fun _ => rfl
  | true escaped => exact .single rfl fun _ => rfl
  | false escaped => exact .single rfl fun _ => rfl
  | number x => exact .single rfl fun _ => rfl
  | string text => exact .single rfl fun _ => rfl
  | @template ls quasis es text last rest =>
    rw [List.length_cons] at below
    obtain ⟨nothing, closes⟩ := closes_substitutions rest fun ms e short value =>
      (below ms (by omega) _ _ value).within _
    cases last with
    | true =>
      rw [nothing rfl]
      exact .single rfl fun _ => rfl
    | false => exact .brackets rfl (fun _ => rfl) (closes rfl)
  | @array ls es items =>
    rw [List.length_cons] at below
    refine .brackets rfl (fun _ => rfl) (closes_separated rfl items fun ms a short item => ?_)
    exact below.element (by omega) item
  | @object ls properties items =>
    rw [List.length_cons] at below
    refine .brackets rfl (fun _ => rfl) (closes_separated rfl items fun ms a short item => ?_)
    exact below.property (by omega) item
  | @parens ls e inside =>
    simp only [List.length_append, List.length_cons] at below
    have closed : Closes .group [.mark ")"] := .single rfl
    have within := (below ls (by omega) _ _ inside).within .group
    exact .brackets rfl (fun _ => rfl) (within.closes closed)
  | @member ls e w escaped optional base =>
    simp only [List.length_append, List.length_cons] at below
    exact (below ls (by omega) _ _ base).member optional w escaped
  | @index ls ms e i optional base inside =>
    simp only [List.length_append, List.length_cons] at below
    have closed : Closes .group [.mark "]"] := .single rfl
    have within := (below ms (by omega) _ _ inside).within .group
    exact (below ls (by omega) _ _ base).link optional (.inl rfl) (within.closes closed)
  | @call ls ms e es optional callee arguments =>
    simp only [List.length_append, List.length_cons] at below
    refine (below ls (by omega) _ _ callee).link optional (.inr rfl)
      (closes_separated rfl arguments fun ns a short item => ?_)
    exact below.argument (by omega) item

theorem Below.unary (below : Below ls.length) (denoted : Denotes .unary ls e) : Follows ls := by
  cases denoted with
  | operand alone => exact below.operand alone
  | @sign ls e m known argument =>
    rw [List.length_cons] at below
    have signs : ["+", "-", "~", "!"].all fun m =>
        Due.operand.step (.mark m) = some ⟨.operand, []⟩
          && [Bracket.group, .branch, .substitution].all fun b => b.step (.mark m) = some [b] := by
      decide
    have sign := List.all_eq_true.1 signs m known
    simp only [Bool.and_eq_true, decide_eq_true_eq, List.all_cons, List.all_nil,
      Bool.and_true] at sign
    obtain ⟨starts, group, branch, substitution⟩ := sign
    refine .before starts (fun b => ?_) (below ls (by omega) _ _ argument)
    cases b with
    | group => exact group
    | branch => exact branch
    | substitution => exact substitution
  | @keyword ls e w escaped known argument =>
    rw [List.length_cons] at below
    have keyword : ["typeof", "void", "delete"].contains w := List.contains_iff_mem.2 known
    refine .before ?_ (fun _ => rfl) (below ls (by omega) _ _ argument)
    simp only [Due.step, keyword, if_true]

theorem Below.binary (below : Below ls.length) {bound : Nat}
    (denoted : Denotes (.binary bound) ls e) : Follows ls := by
  cases denoted with
  | unary _ alone => exact below.unary alone
  | @joined ls ms left right bound precedence operator t known binds first second =>
    simp only [List.length_append, List.length_cons] at below
    refine (below ls (by omega) _ _ first).joined ?_ (Bracket.step_operator known)
      (below ms (by omega) _ _ second)
    simp [Due.step, known]

theorem Below.assignment (below : Below ls.length) (denoted : Denotes .assignment ls e) :
    Follows ls := by
  cases denoted with
  | operands alone => exact below.binary alone
  | @conditional ls ms ns _ _ _ first second third =>
    simp only [List.length_append, List.length_cons] at below
    exact (below ls (by omega) _ _ first).conditional (below ms (by omega) _ _ second)
      (below ns (by omega) _ _ third)

theorem Below.expression (below : Below ls.length) (denoted : Denotes .expression ls e) :
    Follows ls := by
  cases denoted with
  | single alone => exact below.assignment alone
  | @sequence ls e rows es first several others =>
    rw [List.length_append] at below
    have shorter : ∀ row ∈ rows, row.length < (rows.flatMap (.mark "," :: ·)).length := by
      intro row here
      obtain ⟨before, after, rfl⟩ := List.append_of_mem here
      rw [List.flatMap_append, List.flatMap_cons, List.length_append, List.length_append,
        List.length_cons]
      omega
    have each : ∀ row ∈ rows, ∃ item, Denotes .assignment row item :=
      ((List.forall₂_and_left rows es).1
        (others.imp fun _ item denoted => ⟨⟨item, denoted⟩, denoted⟩)).1
    obtain ⟨row, here⟩ := List.exists_mem_of_ne_nil rows several
    have nonempty := shorter row here
    refine (below ls (by omega) _ _ first).sequence fun row here => ?_
    obtain ⟨item, denoted⟩ := each row here
    have short := shorter row here
    exact below row (by omega) _ _ denoted

end

/-- **Every expression can be followed.** -/
theorem Denotes.follows {rank : Rank} {ls : List Symbol} {e : Expr} (denoted : Denotes rank ls e) :
    Follows ls := by
  induction size : ls.length using Nat.strongRecOn generalizing rank ls e with
  | _ n ih =>
    subst size
    have below : Below ls.length := fun ms short rank e denoted => ih ms.length short denoted rfl
    cases rank with
    | expression => exact below.expression denoted
    | assignment => exact below.assignment denoted
    | binary bound => exact below.binary denoted
    | unary => exact below.unary denoted
    | operand => exact below.operand denoted

/-! ## Two divisions of a text -/

namespace Course

variable {s t u : Course}

theorem step_regularExpression : s.step .regularExpression = none := by
  obtain ⟨due, within⟩ := s
  cases within with
  | nil => cases due <;> rfl
  | cons b rest => rfl

/-- Where template text is resumed, a brace closes nothing else. -/
theorem step_brace {text : Option String} {last : Bool}
    (resumed : s.step (.resumed text last) = some t) : s.step (.mark "\x7d") = none := by
  obtain ⟨due, within⟩ := s
  cases within with
  | nil => cases due <;> cases resumed
  | cons b rest =>
    cases b with
    | substitution => rfl
    | _ => cases resumed

/-- **A symbol that can be followed is determined by the text.** -/
theorem step_unique {cs rest rest' : List Char} {l m : Symbol} (first : Starts cs l rest)
    (second : Starts cs m rest') (followed : s.step l = some t) (followed' : s.step m = some u) :
    l = m ∧ rest = rest' := by
  cases first with
  | regularExpression =>
    rw [step_regularExpression] at followed
    cases followed
  | plain found =>
    cases second with
    | regularExpression =>
      rw [step_regularExpression] at followed'
      cases followed'
    | plain found' =>
      rw [found] at found'
      cases found'
      exact ⟨rfl, rfl⟩
    | resumed brace =>
      rw [found] at brace
      cases brace
      rw [step_brace followed'] at followed
      cases followed
  | resumed brace read =>
    cases second with
    | regularExpression =>
      rw [step_regularExpression] at followed'
      cases followed'
    | plain found =>
      rw [brace] at found
      cases found
      rw [step_brace followed] at followed'
      cases followed'
    | resumed brace' read' =>
      rw [brace] at brace'
      cases brace'
      rw [read] at read'
      cases read'
      exact ⟨rfl, rfl⟩

/-- What follows an operand outside of all brackets is a token that continues an expression. -/
theorem continues_of_step {l : Symbol} (followed : step ⟨.operator, []⟩ l = some t) :
    ∃ token, l = .plain token ∧ token.continuesExpression := by
  cases l with
  | plain token =>
    refine ⟨token, rfl, ?_⟩
    simp only [step, Due.step] at followed
    by_contra stops
    simp only [Token.continuesExpression, Bool.not_eq_true, Bool.or_eq_false_iff] at stops
    obtain ⟨⟨⟨links, operator⟩, question⟩, comma⟩ := stops
    have other : ∀ m ∈ [".", "?.", "[", "("], (token == .mark m) = false := by
      intro m member
      rw [beq_eq_false_iff_ne]
      rintro rfl
      rw [Token.links, List.contains_iff_mem.2 member] at links
      cases links
    simp only [List.forall_mem_cons, List.not_mem_nil, false_implies, implies_true,
      and_true] at other
    simp [operator, comma, question, other] at followed
  | resumed text last => cases followed
  | regularExpression => cases followed

end Course

/-- **Two divisions of a text agree as far as both go**, if both can be followed. -/
theorem Lexes.agree {cs rest rest' : List Char} {ls ms : List Symbol} (first : Lexes cs ls rest)
    (second : Lexes cs ms rest') {s t u : Course} (followed : s.run ls = some t)
    (followed' : s.run ms = some u) :
    (∃ more, ms = ls ++ more ∧ Lexes rest more rest') ∨
      ∃ more, ls = ms ++ more ∧ Lexes rest' more rest := by
  induction first generalizing ms s with
  | done cs => exact .inl ⟨ms, rfl, second⟩
  | @next cs middle rest l ls starts later ih =>
    cases second with
    | done => exact .inr ⟨l :: ls, rfl, .next starts later⟩
    | @next _ middle' _ m ms starts' later' =>
      obtain ⟨s', step, run⟩ := Course.step_of_run_cons followed
      obtain ⟨s'', step', run'⟩ := Course.step_of_run_cons followed'
      obtain ⟨rfl, rfl⟩ := Course.step_unique starts starts' step step'
      rw [step] at step'
      cases step'
      rcases ih later' run run' with ⟨more, rfl, lexes⟩ | ⟨more, rfl, lexes⟩
      · exact .inl ⟨more, rfl, lexes⟩
      · exact .inr ⟨more, rfl, lexes⟩

/-- A text goes on with a token that continues an expression. -/
def Continued (cs : List Char) : Prop :=
  ∃ token rest, firstToken? cs = some (token, rest) ∧ token.continuesExpression

/-- What goes on after an expression outside of all brackets continues it. -/
theorem Lexes.continued {cs rest : List Char} {ls more : List Symbol} (lexes : Lexes cs more rest)
    (first : Follows ls) (second : Follows (ls ++ more)) : more = [] ∨ Continued cs := by
  cases lexes with
  | done => exact .inl rfl
  | next starts later =>
    have followed := second.outside
    rw [Course.run_append first.outside] at followed
    obtain ⟨t, step, -⟩ := Course.step_of_run_cons followed
    obtain ⟨token, rfl, continues⟩ := Course.continues_of_step step
    cases starts with
    | plain found => exact .inr ⟨token, _, found, continues⟩

/-- **Two expressions at the start of a text are the same symbols**, unless one of them stops before
a token that continues it. -/
theorem Denotes.same_symbols {cs rest rest' : List Char} {ls ms : List Symbol} {e a : Expr}
    (first : Lexes cs ls rest) (second : Lexes cs ms rest') (denoted : Denotes .expression ls e)
    (denoted' : Denotes .expression ms a) (stops : ¬ Continued rest) (stops' : ¬ Continued rest') :
    ls = ms ∧ rest = rest' := by
  rcases first.agree second denoted.follows.outside denoted'.follows.outside with
    ⟨more, rfl, lexes⟩ | ⟨more, rfl, lexes⟩
  · rcases lexes.continued denoted.follows denoted'.follows with rfl | continued
    · cases lexes
      exact ⟨(List.append_nil ls).symm, rfl⟩
    · exact (stops continued).elim
  · rcases lexes.continued denoted'.follows denoted.follows with rfl | continued
    · cases lexes
      exact ⟨List.append_nil ms, rfl⟩
    · exact (stops' continued).elim

end MiniTemplate.Script
