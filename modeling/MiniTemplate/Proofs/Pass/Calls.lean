import MiniTemplate.Proofs.Pass.Attachment
import MiniTemplate.Proofs.Pass.Conformance

/-!
# What the pass asks, and where it stops

`rootPlan` lists all that the pass has to ask about a tree, read off the tree alone:
no result of a parse decides what is asked next, only whether anything is. `Follows`
says that a trace asks what a plan lists, up to and including the first question that
fails, and fails with its error. Every step of the pass follows its own plan, and plans
compose as steps do, by `Follows.bind`.
-/

namespace MiniTemplate.Pass

open Markup (Attribute Node)

variable {f : Frontend} {s : Spelling}

/-! ## Following a plan -/

/-- The error of a result, if it is one. -/
def failureOf {α : Type} : Except Error α → Option Error
  | .ok _ => none
  | .error e => some e

namespace Frontend

/-- The error that a question is answered with, if it is one; detecting never fails. -/
def failure? (f : Frontend) : Call → Option Error
  | .parse source => failureOf (f.parser source)
  | .detect _ => none

/-- **What is asked of a plan**: all of it up to and including the first question that fails. -/
def asked (f : Frontend) (plan : List Call) : List Call :=
  plan.take (plan.findIdx (fun c => (f.failure? c).isSome) + 1)

/-- **The error that a plan ends with**: that of the first question that fails. -/
def firstFailure? (f : Frontend) (plan : List Call) : Option Error := plan.findSome? f.failure?

theorem asked_cons (c : Call) (plan : List Call) :
    f.asked (c :: plan) = c :: if (f.failure? c).isSome then [] else f.asked plan := by
  unfold asked
  rw [List.findIdx_cons, List.take_succ_cons]
  cases (f.failure? c).isSome with
  | true => rfl
  | false => rfl

/-- A plan that fails leaves nothing to ask of what comes after it. -/
theorem asked_append_of_failure {first : List Call} {e : Error} (rest : List Call)
    (failed : f.firstFailure? first = some e) : f.asked (first ++ rest) = f.asked first := by
  induction first with
  | nil => cases failed
  | cons c first ih =>
    rw [List.cons_append, asked_cons, asked_cons]
    simp only [firstFailure?, List.findSome?_cons] at failed
    cases answer : f.failure? c with
    | some e => rfl
    | none =>
      rw [answer] at failed
      rw [ih failed]

/-- Of a plan without a failure all is asked, and then what comes after it. -/
theorem asked_append_of_none {first : List Call} (rest : List Call)
    (clear : f.firstFailure? first = none) : f.asked (first ++ rest) = first ++ f.asked rest := by
  induction first with
  | nil => rfl
  | cons c first ih =>
    rw [List.cons_append, asked_cons]
    simp only [firstFailure?, List.findSome?_cons] at clear
    cases answer : f.failure? c with
    | some e =>
      rw [answer] at clear
      cases clear
    | none =>
      rw [answer] at clear
      simp [ih clear]

theorem asked_of_none {plan : List Call} (clear : f.firstFailure? plan = none) : f.asked plan = plan := by
  have all := f.asked_append_of_none [] clear
  rwa [List.append_nil, show f.asked [] = [] from rfl, List.append_nil] at all

end Frontend

/-- **A trace follows a plan**: it asks what the plan lists until a question fails, and
fails with the error of that question. -/
structure Trace.Follows {α : Type} (f : Frontend) (t : Trace α) (plan : List Call) : Prop where
  calls : t.calls = f.asked plan
  failure : failureOf t.result = f.firstFailure? plan

namespace Trace.Follows

variable {α β : Type}

theorem pure (a : α) : Trace.Follows f (Pure.pure a) [] := ⟨rfl, rfl⟩

theorem bind {t : Trace α} {next : α → Trace β} {plan rest : List Call} (first : t.Follows f plan)
    (later : ∀ a, t.result = .ok a → (next a).Follows f rest) :
    (t >>= next).Follows f (plan ++ rest) := by
  obtain ⟨calls, result⟩ := t
  obtain ⟨asked, failure⟩ := first
  simp only at asked
  cases result with
  | ok a =>
    have clear : f.firstFailure? plan = none := failure.symm
    have after := later a rfl
    constructor
    · rw [f.asked_append_of_none rest clear, ← after.calls]
      rw [f.asked_of_none clear] at asked
      rw [← asked]
      rfl
    · rw [Frontend.firstFailure?, List.findSome?_append, ← Frontend.firstFailure?, clear, Option.none_or]
      exact after.failure
  | error e =>
    have failed : f.firstFailure? plan = some e := failure.symm
    constructor
    · rw [f.asked_append_of_failure rest failed, ← asked]
      rfl
    · rw [Frontend.firstFailure?, List.findSome?_append, ← Frontend.firstFailure?, failed, Option.some_or]
      rfl

/-- What is made of a result asks nothing more. -/
theorem map {t : Trace α} {plan : List Call} (first : t.Follows f plan) (g : α → β) :
    Trace.Follows f (do return g (← t)) plan := by
  have both : Trace.Follows f (do return g (← t)) (plan ++ []) := first.bind fun a _ => pure (g a)
  rwa [List.append_nil] at both

end Trace.Follows

/-! ## Plans -/

/-- What is asked about a text: what it holds, and the tree of an expression in it. -/
def textPlan (f : Frontend) (raw : String) : List Call :=
  .detect raw :: if (f.detector raw).hasBinding then [.parse (f.detector raw).normalized] else []

/-- The fragments of a class or a style that are written, the static one first. -/
def writtenFragments (a : Attribute) : List String :=
  let fragments :=
    if a.name = "class" then [a.staticClass, a.dynamicClass]
    else if a.name = "style" then [a.staticStyle, a.dynamicStyle]
    else []
  (fragments.flatMap Option.toList).filter fun source => !source.isEmpty

/-- What is asked about an attribute: nothing if its slot is known; else its handlers, in
order, its written fragments, or its value. -/
def attributePlan (f : Frontend) (a : Attribute) : List Call :=
  if a.slot.isSome then []
  else if a.name = eventsName then
    (a.events.getD []).flatMap fun event => (event.2.getD []).map .parse
  else if writtenFragments a ≠ [] then (writtenFragments a).map .parse
  else a.value.toList.flatMap (textPlan f)

/-- What is asked about the part of a sibling in a chain: the condition of a start, and
that of a branch which is attached. -/
def guardPlan (attached : Bool) (n : Node) : List Call :=
  match Role.of n with
  | .start source => [.parse source]
  | .branch (some source) => if attached then [.parse source] else []
  | _ => []

/-- What is asked about a sibling, given what its body asks; nothing about a placeholder. -/
def siblingPlan (attached : Bool) (n : Node) (body : List Call) : List Call :=
  if n.isPlaceholder then [] else guardPlan attached n ++ body

/-- What is asked about siblings, in order, where `attached` says at which places a branch
is attached. -/
def siblingsPlan (attached : Nat → Bool) (siblings : List Node) (bodies : List (List Call)) :
    List Call :=
  ((siblings.zip bodies).mapIdx fun i p => siblingPlan (attached i) p.1 p.2).flatten

mutual

/-- What is asked about the body of a node: its loop, its attributes that are no
directives, its text and its children. -/
def bodyPlan (f : Frontend) (s : Spelling) : Node → List Call
  | { kind, text, attributes, children, loop, .. } =>
    (loop.toList.map fun l => .parse l.source) ++
    ((attributes.getD []).filter fun a => !s.isDirective a.name).flatMap (attributePlan f) ++
    (if kind = .text then text.toList.flatMap (textPlan f) else []) ++
    childrenPlan f s children

/-- What is asked about the children of a node, dead ones included. -/
def childrenPlan (f : Frontend) (s : Spelling) : Option (List Node) → List Call
  | none => []
  | some nodes => siblingsPlan (fun i => Attached nodes i) nodes (bodyPlans f s nodes)

/-- What is asked about the body of each of several nodes. -/
def bodyPlans (f : Frontend) (s : Spelling) : List Node → List (List Call)
  | [] => []
  | n :: rest => bodyPlan f s n :: bodyPlans f s rest

end

/-- **All that is asked about a tree**: the condition of its root, and its body. -/
def rootPlan (f : Frontend) (s : Spelling) (root : Node) : List Call :=
  (root.ifGuard.toList.map fun guard => .parse guard.source) ++ bodyPlan f s root

theorem bodyPlans_eq_map (nodes : List Node) : bodyPlans f s nodes = nodes.map (bodyPlan f s) := by
  exact eq_map_of_cons rfl (fun n rest => by rw [bodyPlans]) nodes

theorem siblingsPlan_cons (attached : Nat → Bool) (n : Node) (siblings : List Node) (body : List Call)
    (bodies : List (List Call)) :
    siblingsPlan attached (n :: siblings) (body :: bodies) =
      siblingPlan (attached 0) n body ++ siblingsPlan (fun i => attached (i + 1)) siblings bodies := by
  simp only [siblingsPlan, List.zip_cons_cons, List.mapIdx_cons, List.flatten_cons]

theorem guardPlan_branch {attached : Bool} {n : Node} {source : Option String}
    (role : Role.of n = .branch source) :
    guardPlan attached n = if attached then source.toList.map .parse else [] := by
  unfold guardPlan
  rw [role]
  cases source with
  | some source => rfl
  | none => simp

/-! ## Each step follows its plan -/

namespace Frontend

theorem follows_parse (source : String) : (f.parse source).Follows f [.parse source] := by
  refine ⟨by simp [parse, asked], ?_⟩
  simp only [firstFailure?, List.findSome?_cons, List.findSome?_nil, failure?, parse_result]
  cases failureOf (f.parser source) with
  | none => rfl
  | some e => rfl

theorem follows_extract (raw : String) : (f.extract raw).Follows f (textPlan f raw) := by
  have detected : (f.detect raw).Follows f [.detect raw] := ⟨rfl, rfl⟩
  rw [extract, textPlan, ← List.singleton_append]
  refine detected.bind fun binding same => ?_
  cases same
  split
  · exact (follows_parse (f.detector raw).normalized).map some
  · exact .pure none

theorem follows_parseOptional (source : Option String) :
    (f.parseOptional source).Follows f (source.toList.map .parse) := by
  cases source with
  | none => exact .pure none
  | some source => exact (follows_parse source).map some

theorem follows_parseAll (sources : List String) :
    (f.parseAll sources).Follows f (sources.map .parse) := by
  induction sources with
  | nil => exact .pure []
  | cons source sources ih => exact (follows_parse source).bind fun tree _ => ih.map (tree :: ·)

end Frontend

theorem follows_valueTree (a : Attribute) :
    (valueTree f a).Follows f (a.value.toList.flatMap (textPlan f)) := by
  unfold valueTree
  cases a.value with
  | none => exact .pure none
  | some value =>
    rw [Option.toList_some, List.flatMap_singleton]
    exact Frontend.follows_extract value

/-- The written ones of two fragments. -/
theorem authored_append (static dynamic : Option String) :
    (authored static).toList ++ (authored dynamic).toList =
      ([static, dynamic].flatMap Option.toList).filter fun source => !source.isEmpty := by
  have one : ∀ source, (authored source).toList = source.toList.filter fun source => !source.isEmpty := by
    intro source
    cases source with
    | none => rfl
    | some source =>
      cases empty : source.isEmpty with
      | true => simp [authored, empty]
      | false => simp [authored, empty]
  rw [one, one, List.flatMap_cons, List.flatMap_singleton, List.filter_append]

/-- Fragments are asked about if one of them is written, and else the value. -/
theorem follows_fragmentSlot {a : Attribute} {static dynamic : Option String}
    (written : writtenFragments a =
      ([static, dynamic].flatMap Option.toList).filter fun source => !source.isEmpty) :
    (fragmentSlot f a static dynamic).Follows f
      (if writtenFragments a ≠ [] then (writtenFragments a).map .parse
      else a.value.toList.flatMap (textPlan f)) := by
  rw [← authored_append] at written
  have some_written : writtenFragments a ≠ [] ↔
      ((authored static).isSome || (authored dynamic).isSome) = true := by
    rw [written]
    cases authored static with
    | some source => simp
    | none =>
      cases authored dynamic with
      | some source => simp
      | none => simp
  unfold fragmentSlot
  simp only [some_written]
  split
  · rw [written, List.map_append]
    refine (Frontend.follows_parseOptional (authored static)).bind fun first _ => ?_
    exact (Frontend.follows_parseOptional (authored dynamic)).map _
  · exact (follows_valueTree a).map _

theorem follows_eventTrees (events : List (String × Option (List String))) :
    (eventTrees f events).Follows f (events.flatMap fun event => (event.2.getD []).map .parse) := by
  induction events with
  | nil => exact .pure []
  | cons event events ih =>
    obtain ⟨name, sources⟩ := event
    rw [eventTrees, List.flatMap_cons]
    refine (Frontend.follows_parseAll (sources.getD [])).bind fun handlers _ => ?_
    exact ih.map fun rest => { event := name, handlers } :: rest

theorem follows_eventSlot (a : Attribute) :
    (eventSlot f a).Follows f
      ((a.events.getD []).flatMap fun event => (event.2.getD []).map .parse) := by
  unfold eventSlot
  cases a.events with
  | none => exact .pure none
  | some events => exact (follows_eventTrees events).map _

theorem follows_attributeSlot (a : Attribute) : (attributeSlot f a).Follows f (attributePlan f a) := by
  unfold attributeSlot attributePlan
  cases slot : a.slot with
  | some known => exact .pure (some (reuse known))
  | none =>
    simp only [Option.isSome_none, Bool.false_eq_true, if_false, beq_iff_eq]
    by_cases isClass : a.name = "class"
    · have noEvents : a.name ≠ eventsName := by
        rw [isClass]
        decide
      rw [if_pos isClass, if_neg noEvents]
      exact follows_fragmentSlot (by rw [writtenFragments, if_pos isClass])
    rw [if_neg isClass]
    by_cases isStyle : a.name = "style"
    · have noEvents : a.name ≠ eventsName := by
        rw [isStyle]
        decide
      rw [if_pos isStyle, if_neg noEvents]
      exact follows_fragmentSlot (by rw [writtenFragments, if_neg isClass, if_pos isStyle])
    rw [if_neg isStyle]
    split
    · exact follows_eventSlot a
    · have unwritten : writtenFragments a = [] := by
        rw [writtenFragments, if_neg isClass, if_neg isStyle]
        rfl
      rw [if_neg (not_not_intro unwritten)]
      exact (follows_valueTree a).map _

theorem follows_simplifyAttributeList (as : List Attribute) :
    (simplifyAttributeList f s as).Follows f
      ((as.filter fun a => !s.isDirective a.name).flatMap (attributePlan f)) := by
  induction as with
  | nil => exact .pure []
  | cons a as ih =>
    rw [simplifyAttributeList, s.isDirective_dialect]
    cases directive : s.isDirective a.name with
    | true => simpa [directive] using ih
    | false =>
      rw [List.filter_cons_of_pos (by simp [directive]), List.flatMap_cons]
      have own : (simplifyAttribute f a).Follows f (attributePlan f a) :=
        (follows_attributeSlot a).map _
      exact own.bind fun simplified _ => ih.map (simplified :: ·)

theorem follows_simplifyLoop? (loop : Option Markup.Loop) :
    (simplifyLoop? f loop).Follows f (loop.toList.map fun l => .parse l.source) := by
  cases loop with
  | none => exact .pure none
  | some loop =>
    have own : (simplifyLoop f loop).Follows f [.parse loop.source] :=
      (Frontend.follows_parse loop.source).map _
    exact own.map some

theorem follows_simplifyText (kind : NodeKind) (text : Option String) :
    (simplifyText f kind text).Follows f
      (if kind = .text then text.toList.flatMap (textPlan f) else []) := by
  cases kind with
  | element => exact .pure (text, none)
  | text =>
    cases text with
    | none => exact .pure (none, none)
    | some raw =>
      have extracted := Frontend.follows_extract (f := f) raw
      rw [if_pos rfl, Option.toList_some, List.flatMap_singleton, ← List.append_nil (textPlan f raw)]
      refine extracted.bind fun tree _ => ?_
      cases tree with
      | none => exact .pure (some raw, none)
      | some tree => exact .pure _

/-- Siblings follow their plan, where `reach` says whether there is the start of a chain
further back. -/
theorem follows_placeAll {nodes : List Node} (reach : Bool)
    (each : ∀ n ∈ nodes, (simplifyNode f s n).Follows f (bodyPlan f s n)) :
    (placeAll f s reach nodes).Follows f
      (siblingsPlan (fun i => Joins reach nodes i) nodes (nodes.map (bodyPlan f s))) := by
  induction nodes generalizing reach with
  | nil =>
    rw [placeAll]
    exact .pure []
  | cons n nodes ih =>
    have own := each n (by simp)
    -- The places after `n`, moved by one, are attached as the flag after `n` says.
    have shifted : (fun i => decide (Joins reach (n :: nodes) (i + 1))) =
        fun i => decide (Joins (reachAfter reach n) nodes i) :=
      funext fun i => decide_eq_decide.2 joins_cons_succ
    rw [placeAll, List.map_cons, siblingsPlan_cons, shifted]
    refine Trace.Follows.bind ?_ fun placed _ =>
      (ih (reachAfter reach n) fun m member => each m (by simp [member])).map (placed :: ·)
    unfold siblingPlan
    cases placeholder : n.isPlaceholder with
    | true => exact .pure _
    | false =>
      simp only [Bool.false_eq_true, if_false]
      cases role : Role.of n with
      | start source =>
        simp only [guardPlan, role]
        exact (Frontend.follows_parse source).bind fun tree _ => own.map _
      | none =>
        simp only [guardPlan, role]
        exact own.map _
      | branch source =>
        -- A branch is asked for its condition just where the flag lets it join.
        have joins : Joins reach (n :: nodes) 0 ↔ reach = true := by
          rw [joins_cons_zero, (kind_of_branch placeholder role).2.1, and_iff_left rfl]
        simp only [guardPlan_branch role, joins, Bool.decide_eq_true]
        cases reach with
        | true => exact (Frontend.follows_parseOptional source).bind fun tree _ => own.map _
        | false => exact own.map _

theorem bodyPlan_eq (n : Node) :
    bodyPlan f s n = (n.loop.toList.map fun l => .parse l.source) ++
      (n.attributeList.filter fun a => !s.isDirective a.name).flatMap (attributePlan f) ++
      (if n.kind = .text then n.text.toList.flatMap (textPlan f) else []) ++
      childrenPlan f s n.children := by
  obtain ⟨⟩ := n
  rw [bodyPlan]
  rfl

theorem follows_simplifyChildren {children : Option (List Node)}
    (each : ∀ n ∈ children.getD [], (simplifyNode f s n).Follows f (bodyPlan f s n)) :
    (simplifyChildren f s children).Follows f (childrenPlan f s children) := by
  cases children with
  | none => exact .pure none
  | some nodes =>
    have attached : (fun i => decide (Attached nodes i)) = fun i => decide (Joins false nodes i) :=
      funext fun i => decide_eq_decide.2 joins_false.symm
    rw [simplifyChildren, childrenPlan, bodyPlans_eq_map, attached]
    exact (follows_placeAll false each).map _

/-- **Every node follows the plan of its body.** -/
theorem follows_simplifyNode (n : Node) : (simplifyNode f s n).Follows f (bodyPlan f s n) := by
  induction n using Node.induction_on_children with
  | step n ih =>
    rw [simplifyNode_eq, bodyPlan_eq, List.append_assoc, List.append_assoc]
    refine (follows_simplifyLoop? n.loop).bind fun loop _ => ?_
    refine ((follows_simplifyAttributeList n.attributeList).map unlessEmpty).bind fun attributes _ => ?_
    refine (follows_simplifyText n.kind n.text).bind fun content _ => ?_
    exact (follows_simplifyChildren ih).map _

theorem follows_simplifyRoot (root : Node) :
    (simplifyRoot f s root).Follows f (rootPlan f s root) := by
  have body := follows_simplifyNode (f := f) (s := s) root
  unfold simplifyRoot rootPlan Role.of
  cases root.ifGuard with
  | some guard => exact (Frontend.follows_parse guard.source).bind fun tree _ => body.map _
  | none =>
    cases root.elseIfGuard with
    | some guard => exact body
    | none =>
      cases root.isElse with
      | true => exact body
      | false => exact body

/-- **The pass asks what its plan lists**, up to and including the first parse that fails.
It fails with the error of that parse. If no parse fails it asks all of its plan and has a
result, which only the contract can reject, and on a tree whose extra members are apart
nothing can. -/
theorem simplify_asks_plan (f : Frontend) (options : Options) (root : Node) :
    (simplifyTraced f options root).calls = f.asked (rootPlan f options.mode.spelling root) ∧
    (∀ e, f.firstFailure? (rootPlan f options.mode.spelling root) = some e →
      simplifyWith f options root = .error e) ∧
    (f.firstFailure? (rootPlan f options.mode.spelling root) = none →
      (simplifyTraced f options root).calls = rootPlan f options.mode.spelling root ∧
      ∃ t, (simplifyRoot f options.mode.spelling root).result = .ok t ∧
        simplifyWith f options root = validated options t ∧
        (root.Apart → simplifyWith f options root = .ok t)) := by
  obtain ⟨calls, failure⟩ := follows_simplifyRoot (f := f) (s := options.mode.spelling) root
  have whole : f.firstFailure? (rootPlan f options.mode.spelling root) = none →
      (simplifyRoot f options.mode.spelling root).calls = rootPlan f options.mode.spelling root :=
    fun clear => calls.trans (Frontend.asked_of_none clear)
  rw [simplifyTraced_calls, simplifyWith_eq]
  refine ⟨calls, ?_⟩
  rw [← failure] at whole ⊢
  cases done : (simplifyRoot f options.mode.spelling root).result with
  | error e =>
    refine ⟨fun e' same => ?_, nofun⟩
    cases same
    rfl
  | ok t =>
    refine ⟨nofun, fun _ => ⟨whole (by rw [done]; rfl), t, rfl, rfl, fun apart => ?_⟩⟩
    exact validated_of_apart apart done

/-- An orphan and a placeholder whose conditions are malformed are not asked about, a dead
start and what it holds are, and nothing is after the text that fails. -/
theorem malformed_text_ends_run :
    ∃ root, Node.ofJson? (.obj [("type", .num (.int 1)), ("if", .obj [("exp", .str "a")]),
        ("children", .arr [.obj [("type", .num (.int 1)), ("elseif", .obj [("exp", .str "(")])],
          .obj [("type", .num (.int 1)), ("if", .obj [("exp", .str "(")]), ("_tempIf", .bool true)],
          .obj [("type", .num (.int 1)), ("if", .obj [("exp", .str "b")]), ("_if", .bool false),
            ("children", .arr [.obj [("type", .num (.int 3)), ("text", .str "\x7b\x7bc\x7d\x7d")]])],
          .obj [("type", .num (.int 1)), ("elseif", .obj [("exp", .str "d")])],
          .obj [("type", .num (.int 3)), ("text", .str "\x7b\x7b)\x7d\x7d")],
          .obj [("type", .num (.int 1)), ("if", .obj [("exp", .str "e")])]])]) = some root ∧
      (simplifyTraced .standard { mode := .wx } root).calls =
        [.parse "a", .parse "b", .detect "\x7b\x7bc\x7d\x7d", .parse "(c)", .parse "d",
          .detect "\x7b\x7b)\x7d\x7d", .parse "())"] ∧
      simplifyWith .standard { mode := .wx } root =
        .error (.expression "())" "the source is not an expression") := by
  have ends : ∀ {v root plan e}, Node.ofJson? v = some root →
      Frontend.asked .standard (rootPlan .standard Mode.wx.spelling root) = plan →
      Frontend.firstFailure? .standard (rootPlan .standard Mode.wx.spelling root) = some e →
      Node.ofJson? v = some root ∧ (simplifyTraced .standard { mode := .wx } root).calls = plan ∧
        simplifyWith .standard { mode := .wx } root = .error e := by
    intro v root plan e read listed failed
    obtain ⟨calls, fails, -⟩ := simplify_asks_plan .standard { mode := .wx } root
    exact ⟨read, calls.trans listed, fails e failed⟩
  exact ⟨_, ends rfl rfl rfl⟩

end MiniTemplate.Pass
