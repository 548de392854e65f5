import Mathlib.Tactic.ByContra
import MiniTemplate.Pass.Frontend

/-!
# Which constructs a source may hold

The nodes of a phrase are its constituents, and `Constituent.children` gives what stands right below
one, in the order in which lowering goes through it. Lowering refuses a node for what the node is,
or else for the first of its children that it refuses (`refused?_eq`). By induction it refuses a
phrase for the first offence that is met when all nodes are visited in this order, and gives a tree
iff every node is one that trees hold. `Constituent.ReportedAs` says which text a node is reported
with. `parseSource_reports_first_unsupported` puts this together for sources.
-/

namespace MiniTemplate.Script

open Phrase (lower lowerAll lowerItems lowerArguments lowerKey lowerEntries)

/-! ## The nodes of a phrase -/

/-- A node of a phrase. -/
inductive Constituent where
  | phrase (p : Phrase)
  | item (i : Item Phrase)
  | argument (a : Argument Phrase)
  | property (e : Entry Phrase)
  | key (k : Key Phrase)
  /-- The body of a method or an accessor, which is a function. -/
  | functionBody

namespace Constituent

/-- **The nodes right below a node, in the order of lowering**: from left to right, but the
arguments of a call come before its callee. -/
def children : Constituent → List Constituent
  | .phrase (.name _) | .phrase (.literal _) | .phrase (.foreign _) => []
  | .phrase (.template _ parts) | .phrase (.sequence parts) => parts.map .phrase
  | .phrase (.array items _) => items.map .item
  | .phrase (.object entries _) => entries.map .property
  | .phrase (.member base _ _) => [.phrase base]
  | .phrase (.index base index _) => [.phrase base, .phrase index]
  | .phrase (.call callee arguments _) => arguments.map .argument ++ [.phrase callee]
  | .phrase (.chain p) | .phrase (.parens p) | .phrase (.unary _ p) => [.phrase p]
  | .phrase (.binary _ left right) | .phrase (.logical _ left right) =>
    [.phrase left, .phrase right]
  | .phrase (.conditional test consequent alternate) =>
    [.phrase test, .phrase consequent, .phrase alternate]
  | .item .hole => []
  | .item (.plain p) | .item (.spread p) => [.phrase p]
  | .argument (.plain p) | .argument (.spread p) => [.phrase p]
  | .property (.pair k value) => [.key k, .phrase value]
  | .property (.method k) | .property (.accessor k) => [.key k, .functionBody]
  | .property (.shorthand _) | .property (.initialised _) => []
  | .property (.spread p) => [.phrase p]
  | .key (.computed p) => [.phrase p]
  | .key (.name _) | .key (.string _) | .key (.number _) | .key .bigInteger => []
  | .functionBody => []

theorem sizeOf_lt_of_mem_map {α : Type} [SizeOf α] {node : α → Constituent} {xs : List α}
    {r : Constituent} (size : ∀ x, sizeOf (node x) = 1 + sizeOf x) (child : r ∈ xs.map node) :
    sizeOf r < 1 + sizeOf xs := by
  obtain ⟨x, member, rfl⟩ := List.mem_map.1 child
  have smaller := List.sizeOf_lt_of_mem member
  rw [size]
  omega

theorem sizeOf_child_lt {q r : Constituent} (child : r ∈ q.children) : sizeOf r < sizeOf q := by
  revert r
  fun_cases children q with
  | case4 | case5 | case6 | case7 =>
    intro r child
    have smaller := sizeOf_lt_of_mem_map (fun _ => rfl) child
    simp only [phrase.sizeOf_spec, Phrase.template.sizeOf_spec, Phrase.sequence.sizeOf_spec,
      Phrase.array.sizeOf_spec, Phrase.object.sizeOf_spec]
    omega
  | case10 callee arguments optional =>
    intro r child
    simp only [phrase.sizeOf_spec, Phrase.call.sizeOf_spec]
    rcases List.mem_append.1 child with child | child
    · have smaller := sizeOf_lt_of_mem_map (fun _ => rfl) child
      omega
    · cases List.mem_singleton.1 child
      simp only [phrase.sizeOf_spec]
      omega
  | _ => simp +arith

/-- **All nodes from a node down, in the order of lowering**: a node before those below it. -/
def visits (q : Constituent) : List Constituent :=
  q :: q.children.attach.flatMap fun r => r.1.visits
termination_by sizeOf q
decreasing_by exact sizeOf_child_lt r.2

theorem visits_eq (q : Constituent) : q.visits = q :: q.children.flatMap visits := by
  rw [visits]
  simp

/-- A node occurs in another: it is the same, or occurs in a child. -/
inductive Occurs : Constituent → Constituent → Prop where
  | self (q : Constituent) : Occurs q q
  | child {q r t : Constituent} (child : r ∈ q.children) (inside : Occurs r t) : Occurs q t

theorem Occurs.trans {q r t : Constituent} (first : Occurs q r) (second : Occurs r t) :
    Occurs q t := by
  induction first with
  | self => exact second
  | child child _ ih => exact .child child (ih second)

/-- **The nodes that are visited are those that occur.** -/
theorem mem_visits_iff {q t : Constituent} : t ∈ q.visits ↔ Occurs q t := by
  constructor
  · intro visited
    induction q using visits.induct with
    | case1 q ih =>
      rw [visits_eq, List.mem_cons, List.mem_flatMap] at visited
      rcases visited with rfl | ⟨r, child, visited⟩
      · exact .self t
      · exact .child child (ih ⟨r, child⟩ visited)
  · intro occurs
    induction occurs with
    | self q =>
      rw [visits_eq]
      exact List.mem_cons_self
    | child child _ ih =>
      rw [visits_eq]
      exact List.mem_cons_of_mem _ (List.mem_flatMap.2 ⟨_, child, ih⟩)

/-- **A node that expression trees hold.** Methods and accessors are not among them, nor is what
stands for a construct without trees. -/
inductive Supported : Constituent → Prop where
  | name (text : String) : Supported (.phrase (.name text))
  | literal (value : Literal) : Supported (.phrase (.literal value))
  | template (quasis : List String) (parts : List Phrase) :
      Supported (.phrase (.template quasis parts))
  | array (items : List (Item Phrase)) (comma : Bool) : Supported (.phrase (.array items comma))
  | object (entries : List (Entry Phrase)) (comma : Bool) :
      Supported (.phrase (.object entries comma))
  | member (base : Phrase) (text : String) (optional : Bool) :
      Supported (.phrase (.member base text optional))
  | index (base key : Phrase) (optional : Bool) : Supported (.phrase (.index base key optional))
  | call (callee : Phrase) (arguments : List (Argument Phrase)) (optional : Bool) :
      Supported (.phrase (.call callee arguments optional))
  /-- An optional chain is one of accesses and calls. -/
  | chain {body : Phrase} (link : body.isLink = true) : Supported (.phrase (.chain body))
  | parens (body : Phrase) : Supported (.phrase (.parens body))
  | unary (operator : String) (argument : Phrase) : Supported (.phrase (.unary operator argument))
  | binary (operator : String) (left right : Phrase) :
      Supported (.phrase (.binary operator left right))
  | logical (operator : String) (left right : Phrase) :
      Supported (.phrase (.logical operator left right))
  | conditional (test consequent alternate : Phrase) :
      Supported (.phrase (.conditional test consequent alternate))
  | sequence (parts : List Phrase) : Supported (.phrase (.sequence parts))
  | item (i : Item Phrase) : Supported (.item i)
  | argument (a : Argument Phrase) : Supported (.argument a)
  | pair (key : Key Phrase) (value : Phrase) : Supported (.property (.pair key value))
  | shorthand (text : String) : Supported (.property (.shorthand text))
  /-- Outside of a pattern this is a syntax error. -/
  | initialised (text : String) : Supported (.property (.initialised text))
  | spreadMember (p : Phrase) : Supported (.property (.spread p))
  | nameKey (text : String) : Supported (.key (.name text))
  | stringKey (text : String) : Supported (.key (.string text))
  | numberKey (value : Binary64) : Supported (.key (.number value))
  | computedKey (p : Phrase) : Supported (.key (.computed p))

/-- **The kind that a node without a tree is reported as.** An accessor is not such a node itself: its
key may be one, and its body is. -/
inductive ReportedAs : Constituent → String → Prop where
  /-- An arrow function, or one that is written out. -/
  | function : ReportedAs (.phrase (.foreign .function)) "function"
  | functionBody : ReportedAs .functionBody "function"
  | assignment : ReportedAs (.phrase (.foreign .assignment)) "assignment"
  | compoundAssignment : ReportedAs (.phrase (.foreign .compoundAssignment)) "assignment"
  | update : ReportedAs (.phrase (.foreign .update)) "update expression"
  | construction : ReportedAs (.phrase (.foreign .construction)) "new expression"
  | this : ReportedAs (.phrase (.foreign .this)) "this"
  | regularExpression : ReportedAs (.phrase (.foreign .regularExpression)) "regular expression"
  | bigInteger : ReportedAs (.phrase (.foreign .bigInteger)) "bigint literal"
  | bigIntegerKey : ReportedAs (.key .bigInteger) "bigint literal"
  | taggedTemplate : ReportedAs (.phrase (.foreign .taggedTemplate)) "tagged template"
  | classBody : ReportedAs (.phrase (.foreign .classBody)) "class expression"
  | await : ReportedAs (.phrase (.foreign .await)) "await/yield"
  | yield : ReportedAs (.phrase (.foreign .yield)) "await/yield"
  | method (key : Key Phrase) : ReportedAs (.property (.method key)) "object method"
  /-- An optional chain that ends in a private name. -/
  | chain {body : Phrase} (other : body.isLink = false) :
      ReportedAs (.phrase (.chain body)) "optional chain"
  /-- Phrases have a place for this and the next one, though no source is read so. -/
  | foreignMethod : ReportedAs (.phrase (.foreign .objectMethod)) "object method"
  | foreignChain : ReportedAs (.phrase (.foreign .optionalChain)) "optional chain"
  /-- What has no text of its own. -/
  | unnamed {construct : Construct} (rest : construct ∈ [Construct.hiddenMember, .hiddenTest,
      .importCall, .importMeta, .newTarget, .superBase]) :
      ReportedAs (.phrase (.foreign construct)) "expression"

/-- What lowering takes offence at in a node itself. In an accessor that is its body, which comes
after its key. -/
def offence? : Constituent → Option Construct
  | .phrase (.foreign construct) => some construct
  | .phrase (.chain p) => if p.isLink then none else some .optionalChain
  | .property (.method _) => some .objectMethod
  | .key .bigInteger => some .bigInteger
  | .functionBody => some .function
  | _ => none

theorem Supported.offence?_eq {q : Constituent} (supported : Supported q) : q.offence? = none := by
  cases supported with
  | chain link => exact if_pos link
  | _ => rfl

theorem reportedAs_foreign (construct : Construct) :
    ReportedAs (.phrase (.foreign construct)) construct.label := by
  cases construct with
  | hiddenMember | hiddenTest | importCall | importMeta | newTarget | superBase =>
    exact .unnamed (by decide)
  | _ => constructor

/-- **A node is supported, or an accessor, or else lowering takes offence at it**, and it is reported
with the text of the offence. -/
theorem offence?_cases (q : Constituent) :
    (q.offence? = none ∧ (q.Supported ∨ ∃ key, q = .property (.accessor key))) ∨
      ∃ construct, q.offence? = some construct ∧ q.ReportedAs construct.label := by
  cases q with
  | phrase p =>
    cases p with
    | foreign construct => exact .inr ⟨construct, rfl, reportedAs_foreign construct⟩
    | chain body =>
      cases link : body.isLink with
      | true => exact .inl ⟨if_pos link, .inl (.chain link)⟩
      | false => exact .inr ⟨.optionalChain, if_neg (by simp [link]), .chain link⟩
    | _ => exact .inl ⟨rfl, .inl (by constructor)⟩
  | property e =>
    cases e with
    | method key => exact .inr ⟨.objectMethod, rfl, .method key⟩
    | accessor key => exact .inl ⟨rfl, .inr ⟨key, rfl⟩⟩
    | _ => exact .inl ⟨rfl, .inl (by constructor)⟩
  | key k =>
    cases k with
    | bigInteger => exact .inr ⟨.bigInteger, rfl, .bigIntegerKey⟩
    | _ => exact .inl ⟨rfl, .inl (by constructor)⟩
  | functionBody => exact .inr ⟨.function, rfl, .functionBody⟩
  | _ => exact .inl ⟨rfl, .inl (by constructor)⟩

theorem supported_or_accessor {q : Constituent} (own : q.offence? = none) :
    q.Supported ∨ ∃ key, q = .property (.accessor key) := by
  rcases q.offence?_cases with ⟨-, fine⟩ | ⟨construct, offence, -⟩
  · exact fine
  · rw [own] at offence
    cases offence

theorem reportedAs_of_offence {q : Constituent} {construct : Construct}
    (offence : q.offence? = some construct) : q.ReportedAs construct.label := by
  rcases q.offence?_cases with ⟨own, -⟩ | ⟨other, same, reported⟩
  · rw [own] at offence
    cases offence
  · rw [same] at offence
    cases offence
    exact reported

/-- Where there is no offence there are no accessors, since their bodies are functions. -/
theorem supported_of_inoffensive {q : Constituent} (own : q.offence? = none)
    (below : ∀ r ∈ q.children, r.offence? = none) : Supported q := by
  rcases supported_or_accessor own with supported | ⟨key, rfl⟩
  · exact supported
  · cases below .functionBody (by simp [children])

theorem forall_supported_iff {q : Constituent} :
    (∀ r, Occurs q r → Supported r) ↔ ∀ r ∈ q.visits, r.offence? = none := by
  constructor
  · intro supported r visited
    exact (supported r (mem_visits_iff.1 visited)).offence?_eq
  · intro inoffensive r occurs
    refine supported_of_inoffensive (inoffensive r (mem_visits_iff.2 occurs)) fun t child => ?_
    exact inoffensive t (mem_visits_iff.2 (occurs.trans (.child child (.self t))))

end Constituent

/-! ## Refusals -/

/-- What a run of lowering fails at. -/
def refusal? {α : Type} : Except Construct α → Option Construct
  | .ok _ => none
  | .error construct => some construct

/-- What follows a step is met only if the step does not fail. -/
theorem refusal?_bind {α β : Type} {x : Except Construct α} {next : α → Except Construct β}
    {rest : Option Construct} (same : ∀ a, refusal? (next a) = rest) :
    refusal? (x >>= next) = (refusal? x).or rest := by
  cases x with
  | ok a => exact same a
  | error construct => rfl

theorem refusal?_bind_pure {α β : Type} {x : Except Construct α} {build : α → β} :
    refusal? (x >>= fun a => pure (build a)) = refusal? x := by
  cases x with
  | ok a => rfl
  | error construct => rfl

theorem findSome?_cons_eq_or {α β : Type} (read : α → Option β) (a : α) (as : List α) :
    (a :: as).findSome? read = (read a).or (as.findSome? read) := by
  cases found : read a with
  | none => simp [found]
  | some b => simp [found]

theorem findSome?_eq_flatMap {α β γ : Type} {first : α → Option γ} {read : β → Option γ}
    {list : α → List β} {as : List α} (each : ∀ a ∈ as, first a = (list a).findSome? read) :
    as.findSome? first = (as.flatMap list).findSome? read := by
  induction as with
  | nil => rfl
  | cons a as ih =>
    rw [List.forall_mem_cons] at each
    rw [findSome?_cons_eq_or, List.flatMap_cons, List.findSome?_append, each.1, ih each.2]

namespace Constituent

/-- What lowering fails at in a node and below it. -/
def refused? : Constituent → Option Construct
  | .phrase p => refusal? p.lower
  | .item .hole => none
  | .item (.plain p) | .item (.spread p) => refusal? p.lower
  | .argument (.plain p) | .argument (.spread p) => refusal? p.lower
  | .property (.pair k value) => (refusal? (lowerKey k)).or (refusal? value.lower)
  | .property (.method _) => some .objectMethod
  | .property (.accessor k) => (refusal? (lowerKey k)).or (some .function)
  | .property (.shorthand _) | .property (.initialised _) => none
  | .property (.spread p) => refusal? p.lower
  | .key k => refusal? (lowerKey k)
  | .functionBody => some .function

theorem refusal?_lowerAll (ps : List Phrase) :
    refusal? (lowerAll ps) = (ps.map phrase).findSome? refused? := by
  induction ps with
  | nil => rfl
  | cons p ps ih =>
    rw [List.map_cons, findSome?_cons_eq_or, ← ih]
    exact refusal?_bind fun _ => refusal?_bind_pure

theorem refusal?_lowerItems (items : List (Item Phrase)) :
    refusal? (lowerItems items) = (items.map item).findSome? refused? := by
  induction items with
  | nil => rfl
  | cons i items ih =>
    rw [List.map_cons, findSome?_cons_eq_or, ← ih]
    cases i with
    | hole => exact refusal?_bind_pure
    | plain p | spread p => exact refusal?_bind fun _ => refusal?_bind_pure

theorem refusal?_lowerArguments (arguments : List (Argument Phrase)) :
    refusal? (lowerArguments arguments) = (arguments.map argument).findSome? refused? := by
  induction arguments with
  | nil => rfl
  | cons a arguments ih =>
    rw [List.map_cons, findSome?_cons_eq_or, ← ih]
    cases a with
    | plain p | spread p => exact refusal?_bind fun _ => refusal?_bind_pure

theorem refusal?_lowerEntries (entries : List (Entry Phrase)) :
    refusal? (lowerEntries entries) = (entries.map property).findSome? refused? := by
  induction entries with
  | nil => rfl
  | cons e entries ih =>
    rw [List.map_cons, findSome?_cons_eq_or, ← ih]
    cases e with
    | pair k value =>
      rw [refused?, Option.or_assoc]
      exact refusal?_bind fun _ => refusal?_bind fun _ => refusal?_bind_pure
    | shorthand text | initialised text => exact refusal?_bind_pure
    | method k => rfl
    | accessor k =>
      -- Nothing after an accessor is looked at.
      rw [refused?, Option.or_assoc]
      exact refusal?_bind fun _ => rfl
    | spread p => exact refusal?_bind fun _ => refusal?_bind_pure

theorem refused?_phrase_eq (p : Phrase) :
    (phrase p).refused? = (phrase p).offence?.or ((phrase p).children.findSome? refused?) := by
  cases p with
  | name | literal | foreign => rfl
  | template _ parts | sequence parts =>
    exact refusal?_bind_pure.trans (refusal?_lowerAll parts)
  | array items => exact refusal?_bind_pure.trans (refusal?_lowerItems items)
  | object entries => exact refusal?_bind_pure.trans (refusal?_lowerEntries entries)
  | call callee arguments =>
    rw [children, List.findSome?_append, ← refusal?_lowerArguments]
    simp only [findSome?_cons_eq_or, List.findSome?_nil, Option.or_none]
    exact refusal?_bind fun _ => refusal?_bind_pure
  | member | unary =>
    simp only [children, findSome?_cons_eq_or, List.findSome?_nil, Option.or_none]
    exact refusal?_bind_pure
  | index | binary | logical =>
    simp only [children, findSome?_cons_eq_or, List.findSome?_nil, Option.or_none]
    exact refusal?_bind fun _ => refusal?_bind_pure
  | conditional =>
    simp only [children, findSome?_cons_eq_or, List.findSome?_nil, Option.or_none]
    exact refusal?_bind fun _ => refusal?_bind fun _ => refusal?_bind_pure
  | parens p =>
    simp only [children, findSome?_cons_eq_or, List.findSome?_nil, Option.or_none]
    rfl
  | chain p =>
    simp only [children, findSome?_cons_eq_or, List.findSome?_nil, Option.or_none, offence?]
    show refusal? (if p.isLink then p.lower else .error .optionalChain) = _
    split
    · rfl
    · rfl

/-- **Lowering refuses a node for what it is, or else for the first child that it refuses.** -/
theorem refused?_eq (q : Constituent) :
    q.refused? = q.offence?.or (q.children.findSome? refused?) := by
  cases q with
  | phrase p => exact refused?_phrase_eq p
  | item i => cases i <;> simp [children, offence?, refused?]
  | argument a => cases a <;> simp [children, offence?, refused?]
  | property e => cases e <;> simp [children, offence?, refused?, findSome?_cons_eq_or]
  | key k =>
    cases k with
    | computed p =>
      simp only [children, findSome?_cons_eq_or, List.findSome?_nil, Option.or_none]
      rfl
    | _ => rfl
  | functionBody => rfl

/-- **Lowering refuses a node for the first offence that a visit meets.** -/
theorem refused?_eq_findSome? (q : Constituent) : q.refused? = q.visits.findSome? offence? := by
  induction q using visits.induct with
  | case1 q ih =>
    rw [refused?_eq, visits_eq, findSome?_cons_eq_or,
      findSome?_eq_flatMap fun r child => ih ⟨r, child⟩]

end Constituent

/-! ## Sources -/

/-- **A text has a syntax error**: its first token is malformed, or the parser finds no expression,
or it notes an error on its way, whatever it has found until then. -/
inductive Malformed (text : List Char) : Prop where
  | start (missing : Stream.start? text = none)
  | stuck {first : Stream} (start : Stream.start? text = some first)
      (missing : Parser.expression (nested (depthBound text)) {} first = none)
  | flawed {first last : Stream} {p : Phrase} (start : Stream.start? text = some first)
      (found : Parser.expression (nested (depthBound text)) {} first = some (p, last))
      (error : last.flawed = true ∨ last.unset ≠ 0)

theorem malformed_iff {text : List Char} : Malformed text ↔ phrase? text = none := by
  constructor
  · intro malformed
    cases malformed with
    | start missing => simp [phrase?, missing]
    | stuck start missing => simp [phrase?, start, missing]
    | flawed start found error =>
      simp only [phrase?, start, found, Option.bind_eq_bind, Option.bind_some]
      rcases error with error | error
      · simp [error]
      · simp [error]
  · intro unread
    cases start : Stream.start? text with
    | none => exact .start start
    | some first =>
      cases found : Parser.expression (nested (depthBound text)) {} first with
      | none => exact .stuck start found
      | some result =>
        refine .flawed start found ?_
        simpa [phrase?, start, found, Classical.or_iff_not_imp_left] using unread

end MiniTemplate.Script

namespace MiniTemplate.Pass.Frontend

open Script (Constituent Phrase phrase? Malformed malformed_iff refusal? Construct)

theorem parseSource_of_none {source : String} (read : phrase? source.toList = none) :
    ∃ message, parseSource source = .error (.expression source message) := by
  simp only [parseSource, Script.parse, read]
  exact ⟨_, rfl⟩

theorem parseSource_of_refusal {source : String} {p : Phrase} (read : phrase? source.toList = some p)
    {construct : Construct} (refused : refusal? p.lower = some construct) :
    parseSource source = .error (.unsupported construct.label source) := by
  cases lowered : p.lower with
  | ok e =>
    rw [lowered] at refused
    cases refused
  | error c =>
    rw [lowered] at refused
    cases refused
    simp only [parseSource, Script.parse, read, lowered]
    rfl

theorem parseSource_ok_iff {source : String} {p : Phrase} (read : phrase? source.toList = some p) :
    (∃ tree, parseSource source = .ok tree) ↔ refusal? p.lower = none := by
  cases lowered : p.lower with
  | ok e =>
    refine ⟨fun _ => rfl, fun _ => ⟨e, ?_⟩⟩
    simp only [parseSource, Script.parse, read, lowered]
    rfl
  | error c =>
    rw [parseSource_of_refusal read (congrArg refusal? lowered)]
    constructor
    · rintro ⟨tree, accepted⟩
      cases accepted
    · intro accepted
      cases accepted

/-- **A source is accepted iff all its nodes are supported, and otherwise the first one that is not is
reported**, as its kind and with the source as it is. An accessor is no such node, but its body is. A
syntax error is reported before any of them. -/
theorem parseSource_reports_first_unsupported (source : String) :
    (Malformed source.toList ↔ ∃ message, parseSource source = .error (.expression source message)) ∧
      (¬ Malformed source.toList → ∃ p, phrase? source.toList = some p ∧
        ((∃ tree, parseSource source = .ok tree) ↔
          ∀ q, Constituent.Occurs (.phrase p) q → q.Supported) ∧
        ((∃ q, Constituent.Occurs (.phrase p) q ∧ ¬ q.Supported) →
          ∃ before q after kind, (Constituent.phrase p).visits = before ++ q :: after ∧
            (∀ r ∈ before, r.Supported ∨ ∃ key, r = .property (.accessor key)) ∧
            q.ReportedAs kind ∧ parseSource source = .error (.unsupported kind source))) := by
  rw [malformed_iff]
  cases read : phrase? source.toList with
  | none => exact ⟨⟨fun _ => parseSource_of_none read, fun _ => rfl⟩, fun sound => (sound rfl).elim⟩
  | some p =>
    have refused : refusal? p.lower = (Constituent.phrase p).visits.findSome? Constituent.offence? :=
      Constituent.refused?_eq_findSome? (.phrase p)
    have accepted : (∃ tree, parseSource source = .ok tree) ↔
        ∀ q, Constituent.Occurs (.phrase p) q → q.Supported := by
      rw [parseSource_ok_iff read, refused, List.findSome?_eq_none_iff,
        Constituent.forall_supported_iff]
    refine ⟨⟨fun malformed => (by cases malformed), ?_⟩, fun _ => ⟨p, rfl, accepted, ?_⟩⟩
    · rintro ⟨message, failed⟩
      cases result : refusal? p.lower with
      | none =>
        obtain ⟨tree, done⟩ := (parseSource_ok_iff read).2 result
        rw [done] at failed
        cases failed
      | some construct =>
        rw [parseSource_of_refusal read result] at failed
        cases failed
    · rintro ⟨q, occurs, unsupported⟩
      cases result : refusal? p.lower with
      | none => exact (unsupported (accepted.1 ((parseSource_ok_iff read).2 result) q occurs)).elim
      | some construct =>
        obtain ⟨before, r, after, split, offence, earlier⟩ :=
          List.findSome?_eq_some_iff.1 (refused.symm.trans result)
        exact ⟨before, r, after, construct.label, split,
          fun t visited => Constituent.supported_or_accessor (earlier t visited),
          Constituent.reportedAs_of_offence offence, parseSource_of_refusal read result⟩

/-- A call whose argument and callee both hold what is not supported. -/
def twiceUnsupported : String := "(new A)(\x7ba: this\x7d)"

/-- A getter whose key holds what is not supported. -/
def unsupportedKey : String := "\x7bget [a++]() \x7b\x7d\x7d"

/-- The argument is reported, since it comes before the callee, and the key, since it comes before the
body; but with a syntax error after both, neither argument nor callee is. -/
theorem twiceUnsupported_reported :
    (∀ report ∈ [(twiceUnsupported, "this"), (unsupportedKey, "update expression")],
      ∃ p before q after, phrase? report.1.toList = some p ∧
        (Constituent.phrase p).visits = before ++ q :: after ∧
        (∀ r ∈ before, r.Supported ∨ ∃ key, r = .property (.accessor key)) ∧
        q.ReportedAs report.2 ∧
        parseSource report.1 = .error (.unsupported report.2 report.1)) ∧
      ∃ message, parseSource (twiceUnsupported ++ "+)") =
        .error (.expression (twiceUnsupported ++ "+)") message) := by
  have run : ∀ report ∈ [(twiceUnsupported, "this"), (unsupportedKey, "update expression")],
      (phrase? report.1.toList).any
        (fun p => (refusal? p.lower).any (·.label == report.2)) = true := by decide +kernel
  have stopped : (phrase? (twiceUnsupported ++ "+)").toList).isNone = true := by decide +kernel
  constructor
  · rintro ⟨source, kind⟩ listed
    obtain ⟨p, read, refused⟩ := (Option.any_eq_true _ _).1 (run _ listed)
    obtain ⟨construct, refused, label⟩ := (Option.any_eq_true _ _).1 refused
    have reported := parseSource_of_refusal read refused
    rw [eq_of_beq label] at reported
    have sound : ¬ Malformed source.toList := by simp [malformed_iff, read]
    obtain ⟨p, read, accepted, first⟩ := (parseSource_reports_first_unsupported source).2 sound
    have unsupported : ∃ q, Constituent.Occurs (.phrase p) q ∧ ¬ q.Supported := by
      by_contra clean
      simp only [not_exists, not_and, not_not] at clean
      obtain ⟨tree, done⟩ := accepted.2 clean
      rw [reported] at done
      cases done
    obtain ⟨before, q, after, other, split, earlier, named, same⟩ := first unsupported
    rw [reported, Except.error.injEq, Error.unsupported.injEq] at same
    rw [← same.1] at named
    exact ⟨p, before, q, after, read, split, earlier, named, reported⟩
  · have malformed := malformed_iff.2 (Option.isNone_iff_eq_none.1 stopped)
    exact (parseSource_reports_first_unsupported (twiceUnsupported ++ "+)")).1.1 malformed

end MiniTemplate.Pass.Frontend
