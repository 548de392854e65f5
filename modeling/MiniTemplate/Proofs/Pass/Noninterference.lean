import Mathlib.Data.List.Forall2
import MiniTemplate.Proofs.Pass.Attachment
import MiniTemplate.Proofs.Pass.Outcome

/-!
# What the pass does not look at

`Alike` relates two markup trees that differ, at any number of places and at any depth, only in
what the pass consumes or never reads: directives among the attributes, what the parser keeps
for itself, placeholders, texts beside the sources of directives, and all parts of an attribute
that another part overrides. `simplifyTraced_eq_of_alike` says that such trees cannot be told
apart by a run: it asks the front end the same questions in the same order, and has the same
result or the same error.
-/

namespace MiniTemplate.Pass

open Json (Members)
open Markup (Node Attribute Guard)
open Script (Expr)

/-! ## Trees that differ only in what is consumed -/

/-- The same tag, or the tag of a wrapper and the one that takes its place. -/
def TagAlike (t u : Option String) : Prop :=
  t = u ∨ (t = some "temp-node" ∧ u = some "block") ∨ (t = some "block" ∧ u = some "temp-node")

/-- A fragment that is absent or empty. -/
def Blank (fragment : Option String) : Prop := fragment = none ∨ fragment = some ""

/-- The same fragment, or two blank ones. -/
def FragmentAlike (x y : Option String) : Prop := x = y ∨ (Blank x ∧ Blank y)

/-- The fragments of a class or a style are alike, and where both are blank, so are the values. -/
structure FragmentsAlike (static dynamic : Attribute → Option String) (a b : Attribute) : Prop where
  statics : FragmentAlike (static a) (static b)
  dynamics : FragmentAlike (dynamic a) (dynamic b)
  value : Blank (static a) → Blank (dynamic a) → a.value = b.value

/-- The same event with the same handlers; absent handlers are none. -/
def HandlersAlike (e g : String × Option (List String)) : Prop :=
  e.1 = g.1 ∧ e.2.getD [] = g.2.getD []

/-- The same handlers of the same events, or no handlers and the same value. -/
inductive EventsAlike (a b : Attribute) : Prop where
  | mapped {es gs : List (String × Option (List String))} (first : a.events = some es)
      (second : b.events = some gs) (each : List.Forall₂ HandlersAlike es gs) : EventsAlike a b
  | unmapped (first : a.events = none) (second : b.events = none) (value : a.value = b.value) :
      EventsAlike a b

/-- **Attributes that differ only in what is overridden**: everything, by what an earlier stage has
extracted; the value, by fragments or handlers; and fragments or handlers, by the name. -/
structure AttributeAlike (a b : Attribute) : Prop where
  name : a.name = b.name
  slot : a.slot = b.slot
  extra : a.extra = b.extra
  classes : a.slot = none → a.name = "class" →
    FragmentsAlike Attribute.staticClass Attribute.dynamicClass a b
  styles : a.slot = none → a.name = "style" →
    FragmentsAlike Attribute.staticStyle Attribute.dynamicStyle a b
  events : a.slot = none → a.name = "data-eventconfigs" → EventsAlike a b
  value : a.slot = none → a.name ∉ ["class", "style", "data-eventconfigs"] → a.value = b.value

/-- The same loop, but for its text. -/
inductive LoopAlike : Option Markup.Loop → Option Markup.Loop → Prop where
  | none : LoopAlike none none
  | some {l m : Markup.Loop} (source : l.source = m.source) (index : l.index = m.index)
      (item : l.item = m.item) (key : l.key = m.key) (extra : l.extra = m.extra) :
      LoopAlike (some l) (some m)

/-- The same directive of a chain, but for its text and the directives that it takes precedence
of. -/
inductive GuardsAlike (n m : Node) : Prop where
  | start {g h : Guard} (first : n.ifGuard = some g) (second : m.ifGuard = some h)
      (source : g.source = h.source) : GuardsAlike n m
  | branch {g h : Guard} (plain : n.ifGuard = none ∧ m.ifGuard = none)
      (first : n.elseIfGuard = some g) (second : m.elseIfGuard = some h)
      (source : g.source = h.source) : GuardsAlike n m
  | other (plain : n.ifGuard = none ∧ m.ifGuard = none)
      (bare : n.elseIfGuard = none ∧ m.elseIfGuard = none) (last : n.isElse = m.isElse) :
      GuardsAlike n m

/-- The attributes that are no directives. -/
def plainAttributes (s : Spelling) (as : List Attribute) : List Attribute :=
  as.filter fun a => !s.isDirective a.name

/-- The names of the members that a parser keeps for itself. -/
def parserNames : List String := ["parent", "exps", "unary", "ifProcessed", "_tempIf"]

/-- The members that are not the parser's own. -/
def passedThrough (ms : Members) : Members := ms.filter fun m => !parserNames.contains m.1

/-- The nodes that are no placeholders. -/
def present (nodes : List Node) : List Node := nodes.filter fun n => !n.isPlaceholder

/-- **Trees that differ only in what is consumed.** Children are compared without placeholders, and
whether a child is known not to be rendered counts unless it is a branch that is attached. -/
inductive Alike (s : Spelling) : Node → Node → Prop where
  | mk {n m : Node} (kind : n.kind = m.kind) (tag : TagAlike n.tag m.tag) (text : n.text = m.text)
      (attributes : List.Forall₂ AttributeAlike (plainAttributes s n.attributeList)
        (plainAttributes s m.attributeList))
      (loop : LoopAlike n.loop m.loop) (guards : GuardsAlike n m)
      (extra : passedThrough n.extra = passedThrough m.extra)
      (count : (present n.childList).length = (present m.childList).length)
      (children : ∀ p ∈ (present n.childList).zip (present m.childList), Alike s p.1 p.2)
      (fates : ∀ (i : Nat) (c d : Node), (present n.childList)[i]? = some c →
        (present m.childList)[i]? = some d → ¬ Attached (present n.childList) i →
          (c.staticIf = some false ↔ d.staticIf = some false)) :
      Alike s n m

variable {f : Frontend} {s : Spelling}

/-! ## Attributes -/

theorem authored_eq_none_iff {x : Option String} : authored x = none ↔ Blank x := by
  cases x with
  | none => simp [authored, Blank]
  | some text => simp [authored, Blank, String.isEmpty_iff]

theorem authored_of_alike {x y : Option String} (alike : FragmentAlike x y) :
    authored x = authored y := by
  rcases alike with rfl | ⟨first, second⟩
  · rfl
  · rw [authored_eq_none_iff.2 first, authored_eq_none_iff.2 second]

section
variable {a b : Attribute}

/-- Two slots that the pass takes for two attributes are the same, and where there is none, so is
the value that stays. -/
def SlotsAlike (a b : Attribute) (first second : Trace (Option Slot)) : Prop :=
  first = second ∧ (first.result = .ok none → a.value = b.value)

theorem slotsAlike_of_value (same : a.value = b.value) (slot : Expr → Slot) :
    SlotsAlike a b (do return (← valueTree f a).map slot)
      (do return (← valueTree f b).map slot) := by
  rw [valueTree, valueTree, same]
  exact ⟨rfl, fun _ => same⟩

/-- Fragments that are alike give the same slot; the value counts only where all are blank. -/
theorem fragmentSlot_of_alike {static dynamic : Attribute → Option String}
    (alike : FragmentsAlike static dynamic a b) :
    SlotsAlike a b (fragmentSlot f a (static a) (dynamic a))
      (fragmentSlot f b (static b) (dynamic b)) := by
  unfold fragmentSlot
  rw [← authored_of_alike alike.statics, ← authored_of_alike alike.dynamics]
  split
  · refine ⟨rfl, fun literal => ?_⟩
    simp only [Trace.bind_ok_iff] at literal
    obtain ⟨_, -, _, -, same⟩ := literal
    cases same
  · rename_i absent
    simp only [Bool.or_eq_true, not_or, Bool.not_eq_true, Option.isSome_eq_false_iff,
      Option.isNone_iff_eq_none, authored_eq_none_iff] at absent
    exact slotsAlike_of_value (alike.value absent.1 absent.2) _

theorem eventTrees_of_alike {es gs : List (String × Option (List String))}
    (each : List.Forall₂ HandlersAlike es gs) : eventTrees f es = eventTrees f gs := by
  induction each with
  | nil => rfl
  | @cons e g es gs first _ ih =>
    obtain ⟨event, handlers⟩ := e
    obtain ⟨_, others⟩ := g
    obtain ⟨rfl, same⟩ := first
    rw [eventTrees, eventTrees, ih, show handlers.getD [] = others.getD [] from same]

/-- Handlers that are alike give the same slot; the value counts only where there are none. -/
theorem eventSlot_of_alike (alike : EventsAlike a b) :
    SlotsAlike a b (eventSlot f a) (eventSlot f b) := by
  unfold eventSlot
  cases alike with
  | mapped first second each =>
    simp only [first, second, eventTrees_of_alike each]
    refine ⟨rfl, fun literal => ?_⟩
    simp only [Trace.bind_ok_iff] at literal
    obtain ⟨_, -, same⟩ := literal
    cases same
  | unmapped first second value =>
    rw [first, second]
    exact ⟨rfl, fun _ => value⟩

/-- **Attributes that are alike have slots that are alike**: one case for each part of an attribute
that the slot may come from. -/
theorem attributeSlot_of_alike (alike : AttributeAlike a b) :
    SlotsAlike a b (attributeSlot f a) (attributeSlot f b) := by
  unfold attributeSlot
  rw [← alike.slot, ← alike.name]
  cases extracted : a.slot with
  | some slot => exact ⟨rfl, nofun⟩
  | none =>
    simp only [beq_iff_eq]
    by_cases isClass : a.name = "class"
    · rw [if_pos isClass, if_pos isClass]
      exact fragmentSlot_of_alike (alike.classes extracted isClass)
    rw [if_neg isClass, if_neg isClass]
    by_cases isStyle : a.name = "style"
    · rw [if_pos isStyle, if_pos isStyle]
      exact fragmentSlot_of_alike (alike.styles extracted isStyle)
    rw [if_neg isStyle, if_neg isStyle]
    by_cases isEvents : a.name = eventsName
    · rw [if_pos isEvents, if_pos isEvents]
      exact eventSlot_of_alike (alike.events extracted isEvents)
    rw [if_neg isEvents, if_neg isEvents]
    apply slotsAlike_of_value
    apply alike.value extracted
    simpa [eventsName] using And.intro isClass (And.intro isStyle isEvents)

theorem simplifyAttribute_of_alike (alike : AttributeAlike a b) :
    simplifyAttribute f a = simplifyAttribute f b := by
  obtain ⟨same, value⟩ := attributeSlot_of_alike (f := f) alike
  unfold simplifyAttribute
  rw [← same, ← alike.name, ← alike.extra]
  apply Trace.bind_congr
  intro slot found
  cases slot with
  | some slot => rfl
  | none => rw [value found]

end

theorem simplifyAttributeList_plain (as : List Attribute) :
    simplifyAttributeList f s (plainAttributes s as) = simplifyAttributeList f s as := by
  induction as with
  | nil => rfl
  | cons a as ih =>
    rw [simplifyAttributeList, s.isDirective_dialect, plainAttributes, List.filter_cons]
    cases directive : s.isDirective a.name with
    | true => exact ih
    | false =>
      simp only [Bool.not_false, if_true, Bool.false_eq_true, if_false]
      rw [simplifyAttributeList, s.isDirective_dialect, directive, ← ih]
      rfl

/-- **Directives do not matter, and of the other attributes only what is not overridden.** -/
theorem simplifyAttributes_of_alike {as bs : List Attribute}
    (alike : List.Forall₂ AttributeAlike (plainAttributes s as) (plainAttributes s bs)) :
    simplifyAttributes f s as = simplifyAttributes f s bs := by
  have same : ∀ {as bs : List Attribute}, List.Forall₂ AttributeAlike as bs →
      simplifyAttributeList f s as = simplifyAttributeList f s bs := by
    intro as bs each
    induction each with
    | nil => rfl
    | cons first _ ih =>
      rw [simplifyAttributeList, simplifyAttributeList, first.name,
        simplifyAttribute_of_alike first, ih]
  rw [simplifyAttributes, simplifyAttributes, ← simplifyAttributeList_plain as,
    ← simplifyAttributeList_plain bs, same alike]

/-! ## Nodes -/

theorem simplifyTag_of_alike {t u : Option String} (alike : TagAlike t u) :
    t.map simplifyTag = u.map simplifyTag := by
  rcases alike with rfl | ⟨rfl, rfl⟩ | ⟨rfl, rfl⟩
  · rfl
  · rfl
  · rfl

/-- The result keeps what is passed through. -/
theorem simplifyExtra_eq (extra : Members) : simplifyExtra extra = passedThrough extra := by
  unfold simplifyExtra passedThrough
  apply List.filter_congr
  intro m _
  simp only [parserNames, Tree.bookkeepingFields, Node.placeholderMark, List.contains_cons,
    List.contains_nil]
  grind

theorem simplifyExtra_passedThrough (extra : Members) :
    simplifyExtra (passedThrough extra) = simplifyExtra extra := by
  rw [simplifyExtra_eq, simplifyExtra_eq]
  simp only [passedThrough, List.filter_filter, Bool.and_self]

theorem simplifyLoop_of_alike {l m : Option Markup.Loop} (alike : LoopAlike l m) :
    simplifyLoop? f l = simplifyLoop? f m := by
  cases alike with
  | none => rfl
  | some source index item key extra =>
    simp only [simplifyLoop?, simplifyLoop, source, index, item, key, extra]

theorem role_of_guards {n m : Node} (alike : GuardsAlike n m) : Role.of n = Role.of m := by
  cases alike with
  | start first second source => simp only [Role.of, first, second, source]
  | branch plain first second source => simp only [Role.of, plain, first, second, source]
  | other plain bare last => simp only [Role.of, plain, bare, last]

namespace Alike

variable {n m : Node}

theorem role (alike : Alike s n m) : Role.of n = Role.of m := by
  cases alike with
  | mk kind tag text attributes loop guards => exact role_of_guards guards

theorem isText (alike : Alike s n m) : n.isText = m.isText := by
  cases alike with
  | mk kind => rw [Node.isText, Node.isText, kind]

/-- A branch after one node reaches the start of a chain iff one after the other does. -/
theorem reachAfter (alike : Alike s n m) (same : n.isPlaceholder = m.isPlaceholder) (reach : Bool) :
    reachAfter reach n = reachAfter reach m := by
  rw [Pass.reachAfter, Pass.reachAfter, same, alike.role, alike.isText]

end Alike

/-! ## Siblings -/

/-- What becomes of the first of several siblings. -/
def place (f : Frontend) (s : Spelling) (reach : Bool) (n : Node) : Trace Placed :=
  if n.isPlaceholder then pure .vacant
  else match Role.of n with
    | .start source => do
      let tree ← f.parse source
      return .start tree (← simplifyNode f s n) (isDead n)
    | .branch source => do
      if reach then
        let tree ← f.parseOptional source
        return .branch (.branch tree (← simplifyNode f s n))
      else return .plain (← simplifyNode f s n) (isDead n)
    | .none => do
      return .plain (← simplifyNode f s n) (isDead n)

/-- The chains and the nodes of several siblings. -/
def gathered (f : Frontend) (s : Spelling) (reach : Bool) (nodes : List Node) :
    Trace (List (Tree.Condition Tree.Node) × List Tree.Node) := do
  return gather (← placeAll f s reach nodes)

/-- What one sibling adds to those after it. -/
def gatherStep (p : Placed) (rest : List (Tree.Condition Tree.Node) × List Tree.Node) :
    List (Tree.Condition Tree.Node) × List Tree.Node :=
  match p with
  | .vacant => rest
  | .start expression node dead => ([], keepUnless dead (anchored expression node rest.1) rest.2)
  | .branch condition => (condition :: rest.1, rest.2)
  | .plain node dead => (rest.1, keepUnless dead node rest.2)

theorem gather_cons (p : Placed) (rest : List Placed) :
    gather (p :: rest) = gatherStep p (gather rest) := by
  cases p <;> rfl

theorem gathered_cons (reach : Bool) (n : Node) (rest : List Node) :
    gathered f s reach (n :: rest) = (do
      let placed ← place f s reach n
      let others ← gathered f s (reachAfter reach n) rest
      return gatherStep placed others) := by
  unfold gathered
  rw [placeAll]
  simp only [bind_assoc, pure_bind, gather_cons]
  rfl

/-- Placeholders ask nothing and add nothing. -/
theorem gathered_present (reach : Bool) (nodes : List Node) :
    gathered f s reach (present nodes) = gathered f s reach nodes := by
  induction nodes generalizing reach with
  | nil => rfl
  | cons n nodes ih =>
    rw [present, List.filter_cons]
    cases placeholder : n.isPlaceholder with
    | true =>
      have skipped : gathered f s reach (n :: nodes) = gathered f s reach nodes := by
        simp [gathered_cons, place, reachAfter, placeholder, gatherStep]
      rw [skipped]
      exact ih reach
    | false =>
      simp only [Bool.not_false, if_true]
      rw [gathered_cons, gathered_cons, ← ih (reachAfter reach n)]
      rfl

theorem simplifyChildren_eq (n : Node) :
    simplifyChildren f s n.children = (do
      let gathered ← gathered f s false (present n.childList)
      return unlessEmpty gathered.2) := by
  rw [gathered_present, gathered, Node.childList]
  cases n.children with
  | none => rfl
  | some nodes =>
    rw [simplifyChildren]
    simp only [bind_assoc, pure_bind, assemble, Option.getD_some]

/-- Two siblings at the same place fare alike, unless it matters that one of them is dead. -/
theorem place_of_alike {n m : Node} {reach : Bool} (alike : Alike s n m)
    (simplified : simplifyNode f s n = simplifyNode f s m)
    (first : n.isPlaceholder = false) (second : m.isPlaceholder = false)
    (fate : ¬ (reach = true ∧ isBranch n = true) → isDead n = isDead m) :
    place f s reach n = place f s reach m := by
  unfold place
  rw [first, second, ← alike.role, ← simplified]
  cases role : Role.of n with
  | start source => rw [fate (by simp [kind_of_start first role])]
  | none => rw [fate (by simp [kind_of_none first role])]
  | branch source =>
    cases reach with
    | true => rfl
    | false => rw [fate (by simp)]

theorem isDead_iff {n : Node} : isDead n = true ↔ n.staticIf = some false := by
  simp [isDead]

/-- **Siblings that are alike gather alike**, one sibling at a time; the flag stands for those
before. -/
theorem gathered_of_alike {ns ms : List Node} (reach : Bool) (count : ns.length = ms.length)
    (first : ∀ n ∈ ns, n.isPlaceholder = false) (second : ∀ m ∈ ms, m.isPlaceholder = false)
    (each : ∀ p ∈ ns.zip ms, Alike s p.1 p.2 ∧ simplifyNode f s p.1 = simplifyNode f s p.2)
    (fates : ∀ (i : Nat) (c d : Node), ns[i]? = some c → ms[i]? = some d → ¬ Joins reach ns i →
      (c.staticIf = some false ↔ d.staticIf = some false)) :
    gathered f s reach ns = gathered f s reach ms := by
  induction ns generalizing ms reach with
  | nil =>
    cases ms with
    | nil => rfl
    | cons m ms => cases count
  | cons n ns ih =>
    cases ms with
    | nil => cases count
    | cons m ms =>
      have plain := first n (by simp)
      have plain' := second m (by simp)
      obtain ⟨alike, simplified⟩ := each (n, m) (by simp)
      -- Whether a sibling is dead may differ in an attached branch only.
      have fate : ¬ (reach = true ∧ isBranch n = true) → isDead n = isDead m := by
        intro apart
        rw [Bool.eq_iff_iff, isDead_iff, isDead_iff]
        exact fates 0 n m rfl rfl (joins_cons_zero.not.2 apart)
      have after : reachAfter reach n = reachAfter reach m :=
        alike.reachAfter (plain.trans plain'.symm) reach
      have rest : gathered f s (reachAfter reach n) ns = gathered f s (reachAfter reach n) ms := by
        apply ih
        · simpa using count
        · exact fun c child => first c (by simp [child])
        · exact fun d child => second d (by simp [child])
        · exact fun p pair => each p (by simp [pair])
        · intro i c d atFirst atSecond apart
          exact fates (i + 1) c d (by simpa using atFirst) (by simpa using atSecond)
            (joins_cons_succ.not.2 apart)
      rw [gathered_cons, gathered_cons, place_of_alike alike simplified plain plain' fate, ← after,
        rest]

theorem not_placeholder_of_present {nodes : List Node} :
    ∀ n ∈ present nodes, n.isPlaceholder = false := by
  intro n member
  simpa using (List.mem_filter.1 member).2

/-! ## Trees -/

/-- **Trees that are alike are simplified alike**, by induction on how they are alike. -/
theorem simplifyNode_of_alike {n m : Node} (alike : Alike s n m) :
    simplifyNode f s n = simplifyNode f s m := by
  induction alike with
  | mk kind tag text attributes loop guards extra count children fates ih =>
    rename_i n m
    have below : simplifyChildren f s n.children = simplifyChildren f s m.children := by
      rw [simplifyChildren_eq, simplifyChildren_eq]
      rw [gathered_of_alike false count not_placeholder_of_present not_placeholder_of_present
        (fun p pair => ⟨children p pair, ih p pair⟩)]
      -- No start of a chain lies before the first child, so to join one is to be attached.
      intro i c d atFirst atSecond apart
      exact fates i c d atFirst atSecond (joins_false.not.1 apart)
    have kept : simplifyExtra n.extra = simplifyExtra m.extra := by
      rw [← simplifyExtra_passedThrough n.extra, extra, simplifyExtra_passedThrough]
    rw [simplifyNode_eq, simplifyNode_eq, simplifyLoop_of_alike loop,
      simplifyAttributes_of_alike attributes, kind, text, below, simplifyTag_of_alike tag, kept]

theorem simplifyRoot_of_alike {n m : Node} (alike : Alike s n m) :
    simplifyRoot f s n = simplifyRoot f s m := by
  rw [simplifyRoot, simplifyRoot, alike.role, simplifyNode_of_alike alike]

/-- **What is consumed does not interfere**: with every front end and under all options, trees that
differ only in what the pass consumes make it ask the same questions in the same order, and give the
same tree or the same error. -/
theorem simplifyTraced_eq_of_alike (f : Frontend) (options : Options) (first second : Node)
    (alike : Alike options.mode.spelling first second) :
    simplifyTraced f options first = simplifyTraced f options second := by
  rw [simplifyTraced, simplifyTraced, simplifyRoot_of_alike alike]

/-- A chain of two nodes. -/
def chain : List Node :=
  [{ Node.element "view" with ifGuard := some { source := "a" } },
   { Node.element "view" with isElse := true }]

/-- The same chain, with directives and marks that have no effect. -/
def markedChain : List Node :=
  [{ Node.element "view" with
     ifGuard := some { raw := some "\x7b\x7b(\x7d\x7d", source := "a" }
     elseIfGuard := some { source := "(" }
     staticIf := some true },
   { Node.element "view" with attributes := some [], isElse := true, staticIf := some false }]

/-- A placeholder whose text is no expression. -/
def malformedPlaceholder : Node :=
  { Node.ofText "\x7b\x7b(\x7d\x7d" with extra := [(Node.placeholderMark, .bool true)] }

/-- A tree with nothing in it that has no effect. -/
def tidy : Node :=
  { Node.element "block" with
    attributes := some [{ name := "class", staticClass := some "'p'" }]
    children := some chain
    ifGuard := some { source := "x" }
    extra := [("note", .null)] }

/-- The same tree with all that may stand in it without effect: no text that is added is an
expression. -/
def untidy : Node :=
  { Node.element "temp-node" with
    attributes := some [
      { name := "s-if", value := some "\x7b\x7b(\x7d\x7d" },
      { name := "class", value := some "\x7b\x7b(\x7d\x7d", staticClass := some "'p'"
        dynamicClass := some "", staticStyle := some "(" }]
    attributeMap := some [("class", .null)]
    children := some (malformedPlaceholder :: markedChain)
    ifGuard := some { source := "x" }
    isElse := true
    staticIf := some false
    extra := [("parent", .null), ("note", .null), (Node.placeholderMark, .bool true)] }

theorem markedChain_alike : ∀ p ∈ markedChain.zip chain, Alike s p.1 p.2 := by
  have childless : ∀ i c d, ([] : List Node)[i]? = some c → ([] : List Node)[i]? = some d →
      ¬ Attached [] i → (c.staticIf = some false ↔ d.staticIf = some false) := by
    intro i c d found
    cases found
  simp only [markedChain, chain, List.zip_cons_cons, List.zip_nil_right, List.forall_mem_cons]
  refine ⟨?start, ?branch, by simp⟩
  case start =>
    exact .mk rfl (.inl rfl) rfl .nil .none (.start rfl rfl rfl) rfl rfl
      (fun _ pair => by cases pair) childless
  case branch =>
    exact .mk rfl (.inl rfl) rfl .nil .none (.other ⟨rfl, rfl⟩ ⟨rfl, rfl⟩ rfl) rfl rfl
      (fun _ pair => by cases pair) childless

theorem untidy_alike_tidy : Alike Mode.swan.spelling untidy tidy := by
  have classes : AttributeAlike
      { name := "class", value := some "\x7b\x7b(\x7d\x7d", staticClass := some "'p'"
        dynamicClass := some "", staticStyle := some "(" }
      { name := "class", staticClass := some "'p'" } := {
    name := rfl
    slot := rfl
    extra := rfl
    classes := fun _ _ => ⟨.inl rfl, .inr ⟨.inr rfl, .inl rfl⟩, by simp [Blank]⟩
    styles := by simp
    events := by simp
    value := by simp }
  refine .mk rfl (.inr (.inl ⟨rfl, rfl⟩)) rfl (.cons classes .nil) .none (.start rfl rfl rfl) rfl
    rfl markedChain_alike fun i c d first second apart => ?_
  match i with
  | 0 =>
    cases first
    cases second
    decide
  | 1 => exact absurd (show Attached markedChain 1 by decide) apart
  | i + 2 => cases first

/-- A malformed directive, a malformed placeholder and a branch that is known not to be rendered
make no difference. -/
theorem untidy_runs_as_tidy :
    simplifyTraced .standard { mode := .swan } untidy =
        simplifyTraced .standard { mode := .swan } tidy ∧
      (simplifyTraced .standard { mode := .swan } tidy).calls =
        [.parse "x", .parse "'p'", .parse "a"] :=
  ⟨simplifyTraced_eq_of_alike _ _ _ _ untidy_alike_tidy, by decide +kernel⟩

end MiniTemplate.Pass
