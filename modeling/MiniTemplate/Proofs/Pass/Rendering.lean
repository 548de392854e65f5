import MiniTemplate.Proofs.Markup.Apart
import MiniTemplate.Proofs.Pass.Folding

/-!
# The pass keeps what is rendered

Two ways to render a template once it is known which expressions are true. A markup
tree is rendered chain by chain: siblings are cut into chains, and of each chain the
first branch whose condition holds is rendered at the place of its `if`. A generator
tree is rendered node by node, by the conditions that a node carries.
`render_of_simplifyRoot` says that both render the same.
-/

namespace MiniTemplate

open Script (Expr)

/-- What is rendered. -/
inductive View where
  | node (kind : NodeKind) (tag text : Option String) (slot : Option Slot) (children : List View)

/-! ## Generator trees -/

namespace Tree.Node

mutual

/-- What a generator tree renders: a node without conditions itself, any other node the
target of its first condition that holds. -/
def render (truth : Expr → Bool) : Node → List View
  | { kind, tag, text, slot, conditions, children, .. } =>
    renderBy truth (.node kind tag text slot (renderChildren truth children)) conditions

/-- What a node renders by its conditions, given what it renders itself. -/
def renderBy (truth : Expr → Bool) (own : View) : Option (List (Condition Node)) → List View
  | none => [own]
  | some conditions => renderFirst truth own conditions

/-- What the first condition that holds stands for; one without an expression holds. -/
def renderFirst (truth : Expr → Bool) (own : View) : List (Condition Node) → List View
  | [] => []
  | { target, expression, .. } :: rest =>
    if expression.all truth then renderTarget truth own target else renderFirst truth own rest

/-- What the target of a condition renders. -/
def renderTarget (truth : Expr → Bool) (own : View) : Target Node → List View
  | .anchor => [own]
  | .block node => render truth node

/-- What the children of a node render. -/
def renderChildren (truth : Expr → Bool) : Option (List Node) → List View
  | none => []
  | some nodes => renderAll truth nodes

/-- What several nodes render. -/
def renderAll (truth : Expr → Bool) : List Node → List View
  | [] => []
  | n :: rest => render truth n ++ renderAll truth rest

end

end Tree.Node

namespace Pass

open Markup (Node)

variable {f : Frontend} {s : Spelling} {truth : Expr → Bool}

/-! ## Markup trees -/

/-- Whether the condition of a node is true; an `else` always is. -/
def holds (f : Frontend) (truth : Expr → Bool) (n : Node) : Bool :=
  match Role.of n with
  | .start source | .branch (some source) => (f.tree? source).any truth
  | _ => true

/-- The place of the sibling that is rendered at a place: in a chain that of the first
branch whose condition is true, the start of the chain included. -/
def renderedPlace? (f : Frontend) (truth : Expr → Bool) (siblings : List Node) (i : Nat) : Option Nat :=
  if siblings[i]?.any opensChain then
    (i :: branchPlaces siblings i).find? fun k => siblings[k]?.any (holds f truth)
  else some i

/-- What siblings render, given what each of them shows. -/
def renderSiblings (f : Frontend) (truth : Expr → Bool) (siblings : List Node) (views : List View) :
    List View :=
  (stayingPlaces siblings).filterMap fun i => do views[← renderedPlace? f truth siblings i]?

/-- The text that a node shows, or the expression in its place. -/
def shownText (f : Frontend) : NodeKind → Option String → Option String × Option Slot
  | .text, some raw =>
    match f.boundTree? raw with
    | some tree => (none, some (.text tree))
    | none => (some raw, none)
  | _, text => (text, none)

/-- The tag that a node shows. -/
def shownTag (tag : String) : String := if tag = "temp-node" then "block" else tag

mutual

/-- What a markup node shows, whether or not it is rendered. -/
def view (f : Frontend) (truth : Expr → Bool) : Node → View
  | { kind, tag, text, children, .. } =>
    .node kind (tag.map shownTag) (shownText f kind text).1 (shownText f kind text).2
      (viewChildren f truth children)

/-- What the children of a markup node render. -/
def viewChildren (f : Frontend) (truth : Expr → Bool) : Option (List Node) → List View
  | none => []
  | some nodes => renderSiblings f truth nodes (views f truth nodes)

/-- What each of several markup nodes shows. -/
def views (f : Frontend) (truth : Expr → Bool) : List Node → List View
  | [] => []
  | n :: rest => view f truth n :: views f truth rest

end

/-- **What a markup tree renders**; the root is rendered unless it has a condition that
is not true. -/
def renderRoot (f : Frontend) (truth : Expr → Bool) (root : Node) : List View :=
  match Role.of root with
  | .start source => if (f.tree? source).any truth then [view f truth root] else []
  | _ => [view f truth root]

/-! ## Both render the same -/

theorem views_eq_map (nodes : List Node) : views f truth nodes = nodes.map (view f truth) := by
  exact eq_map_of_cons rfl (fun n rest => by rw [views]) nodes

theorem view_eq (n : Node) :
    view f truth n = .node n.kind (n.tag.map shownTag) (shownText f n.kind n.text).1
      (shownText f n.kind n.text).2
      (renderSiblings f truth n.childList (n.childList.map (view f truth))) := by
  obtain ⟨kind, tag, text, attributes, attributeMap, children, ifGuard, elseIfGuard, isElse, loop,
    staticIf, extra⟩ := n
  rw [view]
  cases children with
  | none => rfl
  | some nodes => rw [viewChildren, views_eq_map]; rfl

theorem render_eq (t : Tree.Node) :
    t.render truth = Tree.Node.renderBy truth
      (.node t.kind t.tag t.text t.slot (t.childList.flatMap (Tree.Node.render truth))) t.conditions := by
  have all : ∀ nodes, Tree.Node.renderAll truth nodes = nodes.flatMap (Tree.Node.render truth) :=
    eq_flatMap_of_cons rfl fun n rest => by rw [Tree.Node.renderAll]
  obtain ⟨kind, tag, text, attributes, slot, conditions, loop, children, extra⟩ := t
  rw [Tree.Node.render]
  cases children with
  | none => rfl
  | some nodes => rw [Tree.Node.renderChildren, all]; rfl

theorem simplifyTag_eq (tag : String) : simplifyTag tag = shownTag tag := by
  simp [simplifyTag, shownTag, Tree.transientTag, Tree.blockTag]

theorem shownText_of_simplifyText {kind : NodeKind} {text shown : Option String} {slot : Option Slot}
    (done : (simplifyText f kind text).result = .ok (shown, slot)) :
    shownText f kind text = (shown, slot) := by
  rcases simplifyText_ok done with ⟨raw, tree, rfl, rfl, bound, rfl, rfl⟩ | ⟨literal, rfl, rfl⟩
  · simp [shownText, bound]
  · cases kind with
    | element => simp [shownText]
    | text =>
      cases shown with
      | none => rfl
      | some raw => simp [shownText, literal rfl raw rfl]

/-- A condition holds where the branch does that it stands for, and renders it. -/
theorem branchCondition?_renders {n : Node} {c : Tree.Condition Tree.Node} (own : View)
    (shown : ∀ t, Simplified f s n t → t.render truth = [view f truth n])
    (found : branchCondition? f s n = some c) :
    c.expression.all truth = holds f truth n ∧
      Tree.Node.renderTarget truth own c.target = [view f truth n] := by
  unfold branchCondition? at found
  split at found
  · rename_i source role
    simp only [Option.bind_eq_bind, Option.bind_eq_some_iff, Option.pure_def, Option.some.injEq,
      simplified?_eq_some_iff] at found
    obtain ⟨block, node, e, tree, rfl⟩ := found
    exact ⟨by simp [holds, role, tree], shown block node⟩
  · rename_i role
    simp only [Option.bind_eq_bind, Option.bind_eq_some_iff, Option.pure_def, Option.some.injEq,
      simplified?_eq_some_iff] at found
    obtain ⟨block, node, rfl⟩ := found
    exact ⟨by simp [holds, role], shown block node⟩
  · cases found

/-- The first condition that holds is that of the first place whose node holds. -/
theorem renderFirst_eq {siblings : List Node} {places : List Nat}
    {conditions : List (Tree.Condition Tree.Node)} (own : View)
    (shown : ∀ n ∈ siblings, ∀ t, Simplified f s n t → t.render truth = [view f truth n])
    (found : places.mapM (conditionAt? f s siblings) = some conditions) :
    Tree.Node.renderFirst truth own conditions =
      ((places.find? fun k => siblings[k]?.any (holds f truth)).bind
        fun k => (siblings.map (view f truth))[k]?).toList := by
  rw [mapM_eq_some_iff] at found
  induction found with
  | nil => rfl
  -- The induction is on the places and their conditions side by side: the first place that holds is
  -- the first condition that does.
  | @cons k c places rest first _ ih =>
    simp only [conditionAt?, Option.bind_eq_some_iff] at first
    obtain ⟨n, here, first⟩ := first
    obtain ⟨same, target⟩ := branchCondition?_renders own (shown n (List.mem_of_getElem? here)) first
    obtain ⟨isExpression, goal, expression⟩ := c
    rw [Tree.Node.renderFirst, List.find?_cons, here, Option.any_some, ← same]
    cases holding : expression.all truth with
    | true => simp [target, here]
    | false => simp [ih]

/-- A chain renders its start if its condition is true, and else by its branches. -/
theorem render_anchored {e : Expr} {t : Tree.Node} {branches : List (Tree.Condition Tree.Node)}
    {own : View} (alone : t.conditions = none) (shown : t.render truth = [own]) :
    (anchored e t branches).render truth =
      if truth e then [own] else Tree.Node.renderFirst truth own branches := by
  rw [render_eq, alone, Tree.Node.renderBy, List.cons.injEq] at shown
  have same : (anchored e t branches).render truth =
      Tree.Node.renderFirst truth own (.anchor e :: branches) := by
    rw [render_eq, ← shown.1]
    rfl
  rw [same]
  rfl

/-- What a place among siblings becomes renders what is rendered at that place. -/
theorem render_foldedNode? {siblings : List Node} {i : Nat} {k : Tree.Node}
    (shown : ∀ n ∈ siblings, ∀ t, Simplified f s n t → t.render truth = [view f truth n])
    (present : siblings[i]?.any Node.isPlaceholder = false)
    (found : foldedNode? f s siblings i = some k) :
    k.render truth = ((renderedPlace? f truth siblings i).bind
      fun k => (siblings.map (view f truth))[k]?).toList := by
  obtain ⟨n, t, here, node, found⟩ := foldedNode?_eq_some found
  have own := shown n (List.mem_of_getElem? here) t node
  rw [here, Option.any_some] at present
  rcases found with ⟨source, e, branches, role, parsed, folded, rfl⟩ | ⟨other, rfl⟩
  · have opens := (kind_of_start present role).1
    have holding : holds f truth n = truth e := by
      simp [holds, role, Frontend.tree?_eq_some_iff.2 parsed]
    rw [render_anchored node.conditions own, renderFirst_eq (view f truth n) shown folded]
    simp only [renderedPlace?, here, Option.any_some, opens, if_true, List.find?_cons, holding]
    cases truth e with
    | true => simp [here]
    | false => simp
  · have opens : opensChain n = false := by
      cases role : Role.of n with
      | start source => exact (other source role).elim
      | branch source => exact (kind_of_branch present role).1
      | none => exact (kind_of_none present role).1
    simp [own, renderedPlace?, here, opens]

theorem flatMap_render {siblings : List Node} {places : List Nat} {kids : List Tree.Node}
    (shown : ∀ n ∈ siblings, ∀ t, Simplified f s n t → t.render truth = [view f truth n])
    (present : ∀ i ∈ places, siblings[i]?.any Node.isPlaceholder = false)
    (found : places.mapM (foldedNode? f s siblings) = some kids) :
    kids.flatMap (Tree.Node.render truth) = places.filterMap fun i =>
      (renderedPlace? f truth siblings i).bind fun k => (siblings.map (view f truth))[k]? := by
  rw [mapM_eq_some_iff] at found
  induction found with
  | nil => rfl
  | @cons i k places rest first _ ih =>
    have first := render_foldedNode? shown (present i (by simp)) first
    have later := ih fun j member => present j (by simp [member])
    rw [List.flatMap_cons, List.filterMap_cons, first, later]
    cases (renderedPlace? f truth siblings i).bind fun k => (siblings.map (view f truth))[k]? with
    | none => rfl
    | some v => rfl

/-- **A simplified node renders what the markup node shows.** -/
theorem render_of_simplified {n : Node} {t : Tree.Node} (node : Simplified f s n t) :
    t.render truth = [view f truth n] := by
  induction n using Node.induction_on_children generalizing t with
  | step n ih =>
    have folded := folded_of_simplifyChildren node.children
    have children : t.childList.flatMap (Tree.Node.render truth) =
        renderSiblings f truth n.childList (n.childList.map (view f truth)) :=
      flatMap_render ih (fun i member => (stays_of_mem member).present) folded
    have content := shownText_of_simplifyText node.content
    have tags : t.tag = n.tag.map shownTag := by
      rw [node.tag]
      exact congrArg (n.tag.map ·) (funext simplifyTag_eq)
    rw [render_eq, node.conditions, Tree.Node.renderBy, view_eq, content, node.kind, tags, children]

/-- **The pass keeps what is rendered**, whichever expressions are true. -/
theorem render_of_simplifyRoot (truth : Expr → Bool) {root : Node} {t : Tree.Node}
    (done : (simplifyRoot f s root).result = .ok t) : t.render truth = renderRoot f truth root := by
  have plain : (simplifyNode f s root).result = .ok t → t.render truth = [view f truth root] :=
    fun done => render_of_simplified (simplifyNode_ok_iff.1 done)
  unfold simplifyRoot at done
  unfold renderRoot
  cases role : Role.of root with
  | start source =>
    simp only [role, Trace.bind_ok_iff, Frontend.parse_result, Trace.pure_result, Except.ok.injEq,
      simplifyNode_ok_iff] at done
    obtain ⟨e, parsed, t, node, rfl⟩ := done
    rw [render_anchored node.conditions (render_of_simplified node)]
    simp only [Frontend.tree?_eq_some_iff.2 parsed, Option.any_some, Tree.Node.renderFirst]
  | branch source =>
    rw [role] at done
    exact plain done
  | none =>
    rw [role] at done
    exact plain done

/-- A chain of which the second branch is rendered, in a root with a condition of its own,
between text and an orphan. -/
theorem second_branch_renders :
    ∃ t : Tree.Node, (simplifyRoot .standard Mode.wx.spelling
        { kind := .element, tag := some "temp-node", ifGuard := some { source := "!a" },
          children := some [{ kind := .text, text := some "x" },
            { kind := .element, ifGuard := some { source := "a" } },
            { kind := .element, tag := some "view", elseIfGuard := some { source := "!a" } },
            { kind := .element, isElse := true }, { kind := .element },
            { kind := .text, text := some "\x7b\x7ba\x7d\x7d", isElse := true }] }).result = .ok t ∧
      t.render (fun e => match e with
        | .unary _ _ => true
        | _ => false) =
        [.node .element (some "block") none none [.node .text none (some "x") none [],
          .node .element (some "view") none none [], .node .element none none none [],
          .node .text none none (some (.text (.identifier "a"))) []]] := by
  have renders : ∀ {truth root t out}, (simplifyRoot .standard Mode.wx.spelling root).result = .ok t →
      renderRoot .standard truth root = out →
      (simplifyRoot .standard Mode.wx.spelling root).result = .ok t ∧ t.render truth = out := by
    intro truth root t out done expected
    exact ⟨done, (render_of_simplifyRoot truth done).trans expected⟩
  exact ⟨_, renders rfl rfl⟩

end Pass

end MiniTemplate
