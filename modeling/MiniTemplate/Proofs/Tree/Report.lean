import Mathlib.Logic.Basic
import MiniTemplate.Dialect.Mode
import MiniTemplate.Proofs.Tree.Verdict
import MiniTemplate.Tree.Walk

/-!
# What the check reports

The rules of the contract as a list of checks for each node and each attribute, in order, and the
nodes and attributes of a tree in the order of a walk, each with the path that leads to it.
`Node.inspections` puts the two together: all checks of a tree, one after the other. The report of
a tree is about the first of them that fails; `Node.violation?_is_first_failure` says so.
-/

namespace MiniTemplate.Tree

variable {d : Dialect}

/-! ## Codes -/

/-- **The rules and their codes.** -/
def ruleCodes : List (Rule × String) :=
  [(.rawField, "SIMP001"), (.valueWithSlot, "SIMP002"), (.emptyAttributes, "SIMP003"),
   (.slotKind, "SIMP004"), (.conditionChain, "SIMP005"), (.transientTag, "SIMP006"),
   (.directiveAttribute, "SIMP007")]

theorem mem_ruleCodes_iff {rule : Rule} {code : String} :
    (rule, code) ∈ ruleCodes ↔ code = rule.code := by
  cases rule <;> simp [ruleCodes, Rule.code]

/-- The search for a guarantee by its code ends at the rule with that code. -/
theorem Rule.find?_code (rule : Rule) : Rule.all.find? (fun r => r.code == rule.code) = some rule := by
  cases rule <;> rfl

theorem Rule.code_injective {rule other : Rule} (same : rule.code = other.code) : rule = other := by
  have found := find?_code rule
  rw [same, find?_code, Option.some.injEq] at found
  exact found.symm

/-! ## Checks -/

/-- A check: the rule that it is about, and what makes it fail. -/
structure Check where
  rule : Rule
  failure : Prop

/-- The checks of a condition at an index: its target, then its flag. -/
def Condition.checks (i : Nat) (c : Condition Node) : List Check :=
  [⟨.conditionChain, ¬ (c.target = .anchor ↔ i = 0)⟩,
   ⟨.conditionChain, ¬ (c.isExpression = true ↔ c.expression ≠ none)⟩]

/-- The checks of conditions that start at an index. -/
def conditionChecks : Nat → List (Condition Node) → List Check
  | _, [] => []
  | i, c :: rest => c.checks i ++ conditionChecks (i + 1) rest

/-- The checks of a node itself. -/
def Node.checks (n : Node) : List Check :=
  ["parent", "exps", "unary", "ifProcessed", "if", "elseif", "else", "_if", "_tempIf", "attrsMap"].map
      (fun field => ⟨.rawField, ∃ m ∈ n.extra, m.1 = field⟩)
    ++ [⟨.transientTag, n.tag = some "temp-node"⟩,
      ⟨.emptyAttributes, n.attributes = some []⟩,
      ⟨.slotKind, ∃ slot, n.slot = some slot ∧ ¬ ((∃ tree, slot = .text tree) ∧ n.kind = .text)⟩,
      ⟨.slotKind, ∃ loop, n.loop = some loop ∧ ¬ ∃ tree, loop.slot = .loop tree⟩]
    ++ conditionChecks 0 n.conditionList

/-- The checks of an attribute. -/
def Attribute.checks (d : Dialect) (a : Attribute) : List Check :=
  [⟨.directiveAttribute, ∃ directive, a.name = d.name directive⟩,
   ⟨.valueWithSlot, a.value ≠ none ∧ a.slot ≠ none⟩,
   ⟨.slotKind, ∃ tree, a.slot = some (.text tree) ∨ a.slot = some (.loop tree)⟩]

/-! ## Sites -/

/-- What the rules are about: a node, or an attribute. -/
inductive Site where
  | node (node : Node)
  | attr (attr : Attribute)

/-- The branch that a target is, unless it is the node itself. -/
def Target.block? {α : Type} : Target α → Option α
  | .anchor => none
  | .block node => some node

namespace Site

/-- The checks of a node or of an attribute. -/
def checks (d : Dialect) : Site → List Check
  | .node n => n.checks
  | .attr a => a.checks d

/-- Where a step leads to, if it leads anywhere. -/
def enter? : Site → Step → Option Site
  | .node n, .attr i => n.attributeList[i]?.map .attr
  | .node n, .condition i => n.conditionList[i]?.bind fun c => c.target.block?.map .node
  | .node n, .child i => n.childList[i]?.map .node
  | .attr _, _ => none

/-- **Where a path leads to.** -/
def resolve? (s : Site) (path : List Step) : Option Site := path.foldlM enter? s

end Site

/-- A place in a tree: a path, and what it leads to. -/
abbrev Located := List Step × Site

/-- The same place, seen from further up. -/
def Located.below (step : Step) (place : Located) : Located := (step :: place.1, place.2)

/-- The attributes of a node, where they start at an index. -/
def attributeSites : Nat → List Attribute → List Located
  | _, [] => []
  | i, a :: rest => ([.attr i], .attr a) :: attributeSites (i + 1) rest

namespace Node

mutual

/-- **The sites of a tree** in the order of a walk: a node, its attributes, its branches, its
children. -/
def sites : Node → List Located
  | { kind, tag, text, attributes, slot, conditions, loop, children, extra } =>
    ([], .node { kind, tag, text, attributes, slot, conditions, loop, children, extra })
      :: (attributeSites 0 (attributes.getD []) ++ sitesOfConditions conditions
        ++ sitesOfChildren children)

/-- The sites of the branches. -/
def sitesOfConditions : Option (List (Condition Node)) → List Located
  | none => []
  | some conditions => sitesOfBranches 0 conditions

/-- The sites of the branches of conditions that start at an index. -/
def sitesOfBranches : Nat → List (Condition Node) → List Located
  | _, [] => []
  | i, { target, .. } :: rest =>
    (sitesOfTarget target).map (Located.below (.condition i)) ++ sitesOfBranches (i + 1) rest

/-- The sites of a target. -/
def sitesOfTarget : Target Node → List Located
  | .anchor => []
  | .block node => node.sites

/-- The sites of the children. -/
def sitesOfChildren : Option (List Node) → List Located
  | none => []
  | some nodes => sitesOfAll 0 nodes

/-- The sites of children that start at an index. -/
def sitesOfAll : Nat → List Node → List Located
  | _, [] => []
  | i, n :: rest => n.sites.map (Located.below (.child i)) ++ sitesOfAll (i + 1) rest

end

theorem sites_eq (n : Node) :
    n.sites = ([], .node n) :: (attributeSites 0 n.attributeList ++ sitesOfBranches 0 n.conditionList
      ++ sitesOfAll 0 n.childList) := by
  obtain ⟨kind, tag, text, attributes, slot, conditions, loop, children, extra⟩ := n
  rw [sites]
  congr 2
  · congr 1
    cases conditions with
    | none => rfl
    | some cs => rfl
  · cases children with
    | none => rfl
    | some nodes => rfl

end Node

/-- A check at a place. -/
structure Inspection where
  path : List Step
  site : Site
  check : Check

/-- The same inspection, seen from further up. -/
def Inspection.below (step : Step) (i : Inspection) : Inspection := { i with path := step :: i.path }

/-- The checks at several places, one after the other. -/
def inspect (d : Dialect) (places : List Located) : List Inspection :=
  places.flatMap fun place => (place.2.checks d).map fun check => ⟨place.1, place.2, check⟩

/-- **All checks of a tree** in the order of a walk. -/
def Node.inspections (d : Dialect) (n : Node) : List Inspection := inspect d n.sites

theorem inspect_append (places more : List Located) :
    inspect d (places ++ more) = inspect d places ++ inspect d more :=
  List.flatMap_append

theorem inspect_below (step : Step) (places : List Located) :
    inspect d (places.map (Located.below step)) = (inspect d places).map (Inspection.below step) := by
  simp only [inspect, List.flatMap_map, List.map_flatMap, List.map_map]
  rfl

/-! ## Reports -/

/-- **A report of inspections**: it is empty only if none of them fails, and otherwise starts with
the first that does. -/
structure Reports (is : List Inspection) (bs : List Breach) : Prop where
  clear : bs = [] → ∀ i ∈ is, ¬ i.check.failure
  first : ∀ b, bs.head? = some b → ∃ earlier i later, is = earlier ++ i :: later ∧
    (∀ e ∈ earlier, ¬ e.check.failure) ∧ i.check.failure ∧ b.rule = i.check.rule ∧ b.path = i.path

namespace Reports

theorem nil : Reports [] [] where
  clear := by simp
  first := by simp

theorem append {is js : List Inspection} {bs cs : List Breach} (left : Reports is bs)
    (right : Reports js cs) : Reports (is ++ js) (bs ++ cs) where
  clear := by
    intro empty i member
    obtain ⟨rfl, rfl⟩ := List.append_eq_nil_iff.1 empty
    rcases List.mem_append.1 member with member | member
    · exact left.clear rfl i member
    · exact right.clear rfl i member
  first := by
    intro b head
    cases bs with
    | cons b' bs =>
      obtain ⟨earlier, i, later, rfl, passed, failed⟩ := left.first b head
      exact ⟨earlier, i, later ++ js, by simp, passed, failed⟩
    | nil =>
      obtain ⟨earlier, i, later, rfl, passed, failed⟩ := right.first b head
      refine ⟨is ++ earlier, i, later, by simp, fun e member => ?_, failed⟩
      rcases List.mem_append.1 member with member | member
      · exact left.clear rfl e member
      · exact passed e member

theorem cons {i : Inspection} {js : List Inspection} {bs cs : List Breach} (first : Reports [i] bs)
    (later : Reports js cs) : Reports (i :: js) (bs ++ cs) :=
  append first later

theorem below {is : List Inspection} {bs : List Breach} (step : Step) (report : Reports is bs) :
    Reports (is.map (Inspection.below step)) (bs.map (Breach.below step)) where
  clear := by
    intro empty i member
    obtain ⟨j, inside, rfl⟩ := List.mem_map.1 member
    exact report.clear (List.map_eq_nil_iff.1 empty) j inside
  first := by
    intro b head
    rw [List.head?_map, Option.map_eq_some_iff] at head
    obtain ⟨c, head, rfl⟩ := head
    obtain ⟨earlier, i, later, rfl, passed, failed, rule, path⟩ := report.first c head
    refine ⟨earlier.map (Inspection.below step), i.below step, later.map (Inspection.below step),
      by simp, fun e member => ?_, failed, rule, congrArg (step :: ·) path⟩
    obtain ⟨j, inside, rfl⟩ := List.mem_map.1 member
    exact passed j inside

/-- A check that cannot fail needs no report. -/
theorem pass {i : Inspection} (passes : ¬ i.check.failure) : Reports [i] [] where
  clear := by
    intro _ j member
    rw [List.mem_singleton.1 member]
    exact passes
  first := by simp

theorem breachIf {site : Site} {rule : Rule} {failure : Prop} {p : Bool} (message : String)
    (decides : p = true ↔ failure) :
    Reports [⟨[], site, ⟨rule, failure⟩⟩] (breachIf p rule message) := by
  cases p with
  | false =>
    apply pass
    intro failed
    cases decides.2 failed
  | true =>
    refine ⟨by simp [Tree.breachIf], fun b head => ?_⟩
    cases head
    exact ⟨[], _, [], rfl, by simp, decides.1 rfl, rfl, rfl⟩

/-- Only the first of the fields that are there is reported. -/
theorem fields (site : Site) (extra : Json.Members) (names : List String)
    (message : String → String) :
    Reports (names.map fun field => ⟨[], site, ⟨.rawField, ∃ m ∈ extra, m.1 = field⟩⟩)
      ((names.find? (hasMember extra)).toList.flatMap fun field =>
        Tree.breachIf true .rawField (message field)) := by
  have decides (field : String) : hasMember extra field = true ↔ ∃ m ∈ extra, m.1 = field := by
    simp [hasMember]
  induction names with
  | nil => exact nil
  | cons field names ih =>
    cases present : hasMember extra field with
    | true =>
      rw [List.find?_cons_of_pos present]
      refine ⟨by simp [Tree.breachIf], fun b head => ?_⟩
      cases head
      exact ⟨[], _, _, rfl, by simp, (decides field).1 present, rfl, rfl⟩
    | false =>
      rw [List.find?_cons_of_neg (by simp [present])]
      refine cons (pass fun there => ?_) ih
      rw [(decides field).2 there] at present
      cases present

theorem conditions (site : Site) (i : Nat) (cs : List (Condition Node)) :
    Reports ((conditionChecks i cs).map fun check => ⟨[], site, check⟩) (conditionBreaches i cs) := by
  induction cs generalizing i with
  | nil => exact nil
  | cons c cs ih =>
    rw [conditionChecks, conditionBreaches, List.map_append]
    refine append (cons (breachIf _ ?_) (breachIf _ ?_)) (ih (i + 1))
    · cases c.target <;> cases i <;> simp [Target.isAnchor]
    · cases c.isExpression <;> cases c.expression <;> simp

/-- A check of something that may be absent. -/
theorem optional {α : Type} {site : Site} {rule : Rule} {failure : α → Prop} (found : Option α)
    (p : α → Bool) (message : α → String) (decides : ∀ x, p x = true ↔ failure x) :
    Reports [⟨[], site, ⟨rule, ∃ x, found = some x ∧ failure x⟩⟩]
      (found.toList.flatMap fun x => Tree.breachIf (p x) rule (message x)) := by
  cases found with
  | none => exact pass (by simp)
  | some x =>
    simp only [Option.toList_some, List.flatMap_cons, List.flatMap_nil, List.append_nil]
    apply breachIf
    simp [decides]

theorem own (n : Node) : Reports (inspect d [([], .node n)]) n.ownBreaches := by
  have empty : n.attributes.any List.isEmpty = true ↔ n.attributes = some [] := by
    cases n.attributes <;> simp
  simp only [inspect, List.flatMap_cons, List.flatMap_nil, List.append_nil, Site.checks, Node.checks,
    List.map_append, List.map_map, Node.ownBreaches]
  refine append ?_ (conditions ..)
  rw [List.append_assoc, List.append_assoc, List.append_assoc]
  refine append (fields ..) ?_
  refine cons (breachIf _ (by simp [transientTag])) ?_
  refine cons (breachIf _ empty) ?_
  refine cons (optional _ _ _ fun slot => ?_) (optional _ _ _ fun loop => ?_)
  · rw [← isTextSlot_iff]
    cases isTextSlot slot <;> cases n.kind <;> simp
  · rw [← isLoopSlot_iff]
    simp

theorem ofAttribute (a : Attribute) : Reports (inspect d [([], .attr a)]) (a.breaches d) := by
  simp only [inspect, List.flatMap_cons, List.flatMap_nil, List.append_nil, Site.checks,
    Attribute.checks, Attribute.breaches, List.map_cons, List.map_nil]
  rw [List.append_assoc]
  refine cons (breachIf _ ?_) (cons (breachIf _ ?_) ?_)
  · rw [← not_iff_not, Bool.not_eq_true, isDirective_eq_false_iff, not_exists]
  · simp [Option.isSome_iff_ne_none]
  · cases found : a.slot with
    | none => exact pass (by simp)
    | some slot =>
      simp only [Option.toList_some, List.flatMap_cons, List.flatMap_nil, List.append_nil]
      apply breachIf
      rw [Bool.or_eq_true, isTextSlot_iff, isLoopSlot_iff, ← exists_or]
      simp

theorem attributes (i : Nat) (as : List Attribute) :
    Reports (inspect d (attributeSites i as)) (attributeBreaches d i as) := by
  induction as generalizing i with
  | nil => exact nil
  | cons a as ih =>
    have here := (ofAttribute (d := d) a).below (.attr i)
    rw [← inspect_below] at here
    exact append here (ih (i + 1))

theorem branches (i : Nat) (cs : List (Condition Node))
    (each : ∀ c ∈ cs, ∀ b, c.target = .block b → Reports (inspect d b.sites) (b.breaches d)) :
    Reports (inspect d (Node.sitesOfBranches i cs)) (Node.breachesOfBranches d i cs) := by
  induction cs generalizing i with
  | nil => exact nil
  | cons c cs ih =>
    obtain ⟨isExpression, target, expression⟩ := c
    rw [Node.sitesOfBranches, Node.breachesOfBranches, inspect_append, inspect_below]
    refine append (below _ ?_) (ih (i + 1) fun c member => each c (List.mem_cons_of_mem _ member))
    cases target with
    | anchor => exact nil
    | block b => exact each _ List.mem_cons_self b rfl

theorem children (i : Nat) (nodes : List Node)
    (each : ∀ n ∈ nodes, Reports (inspect d n.sites) (n.breaches d)) :
    Reports (inspect d (Node.sitesOfAll i nodes)) (Node.breachesOfAll d i nodes) := by
  induction nodes generalizing i with
  | nil => exact nil
  | cons n nodes ih =>
    rw [Node.sitesOfAll, Node.breachesOfAll, inspect_append, inspect_below]
    exact append (below _ (each n List.mem_cons_self))
      (ih (i + 1) fun c member => each c (List.mem_cons_of_mem _ member))

/-- **The report of a tree is one of all its checks.** -/
theorem breaches (n : Node) : Reports (n.inspections d) (n.breaches d) := by
  rw [Node.inspections]
  induction n using Node.induction_on_parts with
  | step n below beside =>
    rw [Node.sites_eq, Node.breaches_eq, List.append_assoc, List.append_assoc, List.append_assoc,
      ← List.singleton_append, inspect_append, inspect_append, inspect_append]
    refine append (own n) (append (attributes ..) (append ?_ ?_))
    · exact branches 0 _ beside
    · exact children 0 _ below

end Reports

/-! ## Sites are met in the order of a walk -/

/-- The node or the attribute that a walk meets. -/
def Event.site? : Event → Option Site
  | .node n => some (.node n)
  | .attr a => some (.attr a)
  | _ => none

theorem map_snd_below (step : Step) (places : List Located) :
    (places.map (Located.below step)).map Prod.snd = places.map Prod.snd := by
  rw [List.map_map]
  rfl

theorem map_snd_attributeSites (i : Nat) (as : List Attribute) :
    (attributeSites i as).map Prod.snd = as.map Site.attr := by
  induction as generalizing i with
  | nil => rfl
  | cons a as ih => rw [attributeSites, List.map_cons, ih, List.map_cons]

namespace Node

theorem events_eq (n : Node) :
    n.events [] = .node n :: (n.attributeList.map .attr ++ branchEvents [] n.conditionList
      ++ .children n.childList.length :: allEvents [] n.childList) := by
  obtain ⟨kind, tag, text, attributes, slot, conditions, loop, children, extra⟩ := n
  have goesOn : stopsAt [] tag = false := by
    cases tag <;> rfl
  rw [events, goesOn]
  cases conditions <;> cases children <;> rfl

theorem map_snd_sitesOfBranches (i : Nat) (cs : List (Condition Node))
    (each : ∀ c ∈ cs, ∀ b, c.target = .block b →
      b.sites.map Prod.snd = (b.events []).filterMap Event.site?) :
    (sitesOfBranches i cs).map Prod.snd = (branchEvents [] cs).filterMap Event.site? := by
  induction cs generalizing i with
  | nil => rfl
  | cons c cs ih =>
    obtain ⟨isExpression, target, expression⟩ := c
    have later := ih (i + 1) fun c member => each c (List.mem_cons_of_mem _ member)
    have here : (sitesOfTarget target).map Prod.snd = (targetEvents [] target).filterMap Event.site? := by
      cases target with
      | anchor => rfl
      | block b => exact each _ List.mem_cons_self b rfl
    rw [sitesOfBranches, branchEvents, List.map_append, map_snd_below, later, here,
      List.filterMap_cons_none rfl, List.filterMap_append]

theorem map_snd_sitesOfAll (i : Nat) (nodes : List Node)
    (each : ∀ n ∈ nodes, n.sites.map Prod.snd = (n.events []).filterMap Event.site?) :
    (sitesOfAll i nodes).map Prod.snd = (allEvents [] nodes).filterMap Event.site? := by
  induction nodes generalizing i with
  | nil => rfl
  | cons n nodes ih =>
    rw [sitesOfAll, allEvents, List.map_append, map_snd_below, each n List.mem_cons_self,
      ih (i + 1) fun c member => each c (List.mem_cons_of_mem _ member), List.filterMap_append]

/-- **The sites of a tree are what a walk meets.** -/
theorem map_snd_sites (n : Node) : n.sites.map Prod.snd = (n.events []).filterMap Event.site? := by
  induction n using induction_on_parts with
  | step n below beside =>
    have attributes : (n.attributeList.map Event.attr).filterMap Event.site?
        = n.attributeList.map Site.attr := by
      rw [List.filterMap_map]
      exact congrFun List.filterMap_eq_map n.attributeList
    rw [sites_eq, events_eq, List.map_cons, List.map_append, List.map_append, map_snd_attributeSites,
      map_snd_sitesOfBranches 0 _ beside, map_snd_sitesOfAll 0 _ below,
      List.filterMap_cons_some (show Event.site? (.node n) = some (.node n) from rfl),
      List.filterMap_append, List.filterMap_append, attributes, List.filterMap_cons_none rfl]

end Node

/-! ## Paths lead to sites -/

theorem mem_map_below {step : Step} {places : List Located} {path : List Step} {site : Site} :
    (path, site) ∈ places.map (Located.below step) ↔ ∃ q, path = step :: q ∧ (q, site) ∈ places := by
  rw [List.mem_map]
  constructor
  · rintro ⟨⟨q, s⟩, member, same⟩
    cases same
    exact ⟨q, rfl, member⟩
  · rintro ⟨q, rfl, member⟩
    exact ⟨(q, site), member, rfl⟩

theorem attributeSites_eq (i : Nat) (as : List Attribute) :
    attributeSites i as = (as.zipIdx i).flatMap fun entry => [([.attr entry.2], .attr entry.1)] := by
  induction as generalizing i with
  | nil => rfl
  | cons a as ih => rw [attributeSites, ih, List.zipIdx_cons, List.flatMap_cons, List.singleton_append]

namespace Node

theorem sitesOfBranches_eq (i : Nat) (cs : List (Condition Node)) :
    sitesOfBranches i cs = (cs.zipIdx i).flatMap fun entry =>
      (sitesOfTarget entry.1.target).map (Located.below (.condition entry.2)) := by
  induction cs generalizing i with
  | nil => rfl
  | cons c cs ih => rw [sitesOfBranches, ih, List.zipIdx_cons, List.flatMap_cons]

theorem sitesOfAll_eq (i : Nat) (nodes : List Node) :
    sitesOfAll i nodes = (nodes.zipIdx i).flatMap fun entry =>
      entry.1.sites.map (Located.below (.child entry.2)) := by
  induction nodes generalizing i with
  | nil => rfl
  | cons n nodes ih => rw [sitesOfAll, ih, List.zipIdx_cons, List.flatMap_cons]

/-- A path to a site that starts with a step goes through the part that the step leads to. -/
theorem mem_sites_cons {n : Node} {step : Step} {path : List Step} {site : Site} :
    (step :: path, site) ∈ n.sites ↔
      (∃ a i, n.attributeList[i]? = some a ∧ (step = .attr i ∧ path = []) ∧ site = .attr a) ∨
      (∃ c i, n.conditionList[i]? = some c ∧ step = .condition i ∧
        (path, site) ∈ sitesOfTarget c.target) ∨
      ∃ c i, n.childList[i]? = some c ∧ step = .child i ∧ (path, site) ∈ c.sites := by
  rw [sites_eq, attributeSites_eq, sitesOfBranches_eq, sitesOfAll_eq]
  simp only [List.mem_cons, List.mem_append, List.mem_flatMap, mem_map_below, Prod.mk.injEq,
    List.cons.injEq, Prod.exists, List.mem_zipIdx_iff_getElem?, List.not_mem_nil, or_false,
    reduceCtorEq, false_and, false_or, or_assoc]
  simp only [and_assoc, exists_and_left, exists_eq_left']

theorem mem_sites_nil {n : Node} {site : Site} : ([], site) ∈ n.sites ↔ site = .node n := by
  rw [sites_eq, attributeSites_eq, sitesOfBranches_eq, sitesOfAll_eq]
  simp only [List.mem_cons, List.mem_append, List.mem_flatMap, mem_map_below, Prod.mk.injEq,
    List.not_mem_nil, or_false, reduceCtorEq, false_and, and_false, exists_false, true_and]

/-- **The sites of a tree are the places that paths lead to.** -/
theorem mem_sites_iff {n : Node} {path : List Step} {site : Site} :
    (path, site) ∈ n.sites ↔ (Site.node n).resolve? path = some site := by
  induction path generalizing n with
  | nil =>
    rw [mem_sites_nil, Site.resolve?, List.foldlM_nil]
    exact ⟨fun same => congrArg some same.symm, fun same => (Option.some.inj same).symm⟩
  | cons step path ih =>
    rw [mem_sites_cons, Site.resolve?, List.foldlM_cons, Option.bind_eq_bind, Option.bind_eq_some_iff]
    constructor
    · rintro (⟨a, i, found, ⟨rfl, rfl⟩, rfl⟩ | ⟨c, i, found, rfl, inside⟩ | ⟨c, i, found, rfl, inside⟩)
      · exact ⟨.attr a, by rw [Site.enter?, found]; rfl, rfl⟩
      · cases target : c.target with
        | anchor =>
          rw [target] at inside
          cases inside
        | block b =>
          rw [target] at inside
          refine ⟨.node b, ?_, ih.1 inside⟩
          rw [Site.enter?, found, Option.bind_some, target]
          rfl
      · exact ⟨.node c, by rw [Site.enter?, found]; rfl, ih.1 inside⟩
    · rintro ⟨next, entered, resolved⟩
      cases step with
      | attr i =>
        obtain ⟨a, found, rfl⟩ := Option.map_eq_some_iff.1 entered
        -- No step leads on from an attribute.
        cases path with
        | nil =>
          cases resolved
          exact .inl ⟨a, i, found, ⟨rfl, rfl⟩, rfl⟩
        | cons => cases resolved
      | condition i =>
        obtain ⟨c, found, inside⟩ := Option.bind_eq_some_iff.1 entered
        obtain ⟨b, target, rfl⟩ := Option.map_eq_some_iff.1 inside
        refine .inr (.inl ⟨c, i, found, rfl, ?_⟩)
        cases goal : c.target with
        | anchor =>
          rw [goal] at target
          cases target
        | block node =>
          rw [goal] at target
          cases target
          exact ih.2 resolved
      | child i =>
        obtain ⟨c, found, rfl⟩ := Option.map_eq_some_iff.1 entered
        exact .inr (.inr ⟨c, i, found, rfl, ih.2 resolved⟩)

end Node

/-! ## The text of a path -/

/-- What stands before the index in the text of a step. -/
def Step.listName : Step → String
  | .attr _ => "attrsList["
  | .condition _ => "ifConditions["
  | .child _ => "children["

/-- The index of a step. -/
def Step.index : Step → Nat
  | .attr i | .condition i | .child i => i

theorem Step.toList_text (s : Step) :
    s.text.toList = s.listName.toList ++ (Nat.toDigits 10 s.index ++ [']']) := by
  have shape : s.text = s.listName ++ Nat.repr s.index ++ "]" := by
    cases s <;> rfl
  rw [shape]
  simp [Nat.toList_repr]

theorem Step.dot_not_mem_text (s : Step) : '.' ∉ s.text.toList := by
  have digits : '.' ∉ Nat.toDigits 10 s.index := by
    intro member
    exact absurd (Nat.isDigit_of_mem_toDigits (by decide) (by decide) member) (by decide)
  have names : '.' ∉ s.listName.toList := by
    cases s <;> simp [listName]
  simp [toList_text, digits, names]

theorem toDigits_injective {m n : Nat} (same : Nat.toDigits 10 m = Nat.toDigits 10 n) : m = n := by
  simpa using congrArg (Nat.ofDigitChars 10 · 0) same

theorem Step.text_injective {s t : Step} (same : s.text = t.text) : s = t := by
  have chars := congrArg String.toList same
  rw [toList_text, toList_text] at chars
  -- The names of the lists differ in their first letters.
  cases s with
  | attr i =>
    cases t with
    | attr j => exact congrArg attr (toDigits_injective (by simpa [listName, index] using chars))
    | condition | child => simp [listName] at chars
  | condition i =>
    cases t with
    | condition j => exact congrArg condition (toDigits_injective (by simpa [listName, index] using chars))
    | attr | child => simp [listName] at chars
  | child i =>
    cases t with
    | child j => exact congrArg child (toDigits_injective (by simpa [listName, index] using chars))
    | attr | condition => simp [listName] at chars

/-- **A path is read from its text in one way only.** -/
theorem pathText_injective {path other : List Step} (same : pathText path = pathText other) :
    path = other := by
  have parts (steps : List Step) : List.splitOn '.' (pathText steps).toList
      = ("root" :: steps.map Step.text).map String.toList := by
    rw [pathText, String.toList_intercalate]
    refine List.splitOn_intercalate '.' (fun part member => ?_) (List.cons_ne_nil _ _)
    simp only [List.map_cons, List.map_map, List.mem_cons, List.mem_map] at member
    rcases member with rfl | ⟨s, -, rfl⟩
    · decide
    · exact s.dot_not_mem_text
  have texts := (parts path).symm.trans ((congrArg (List.splitOn '.' ·.toList) same).trans (parts other))
  rw [List.map_inj_right fun _ _ => String.toList_inj.1, List.cons.injEq,
    List.map_inj_right fun _ _ => Step.text_injective] at texts
  exact texts.2

namespace Node

/-- **The report is about the first check that fails**, in the order of a walk, with the code of its
rule and of no other, and at the path that leads to what fails it. The places in that order are all
that a path leads to. -/
theorem violation?_is_first_failure (d : Dialect) (root : Node) (v : Violation)
    (found : root.violation? d = some v) :
    (root.sites.map Prod.snd = (root.events []).filterMap Event.site? ∧
      ∀ path site, (path, site) ∈ root.sites ↔ (Site.node root).resolve? path = some site) ∧
    ∃ earlier i later, root.inspections d = earlier ++ i :: later ∧
      (∀ e ∈ earlier, ¬ e.check.failure) ∧ i.check.failure ∧ v.code = i.check.rule.code ∧
      (∀ rule, (rule, v.code) ∈ ruleCodes ↔ rule = i.check.rule) ∧
      v.path = pathText i.path ∧ (∀ other, pathText other = v.path → other = i.path) ∧
      (Site.node root).resolve? i.path = some i.site ∧ i.check ∈ i.site.checks d := by
  refine ⟨⟨root.map_snd_sites, fun _ _ => mem_sites_iff⟩, ?_⟩
  obtain ⟨b, head, rfl⟩ := Option.map_eq_some_iff.1 found
  obtain ⟨earlier, i, later, split, passed, failed, rule, path⟩ := (Reports.breaches root).first b head
  have inside : i ∈ root.inspections d := by
    rw [split]
    simp
  obtain ⟨⟨steps, site⟩, listed, checked⟩ := List.mem_flatMap.1 inside
  obtain ⟨check, member, rfl⟩ := List.mem_map.1 checked
  have text : b.violation.path = pathText steps := congrArg pathText path
  have code : b.violation.code = check.rule.code := congrArg Rule.code rule
  refine ⟨earlier, _, later, split, passed, failed, code, fun other => ?_, text, ?_,
    mem_sites_iff.1 listed, member⟩
  · rw [mem_ruleCodes_iff, code]
    exact ⟨fun same => (Rule.code_injective same).symm, fun same => congrArg Rule.code same.symm⟩
  · intro other same
    exact pathText_injective (same.trans text)

/-- A branch whose only child has a second attribute that breaks a rule. -/
def faultyBranch : Node where
  kind := .element
  children := some [{ kind := .element, attributes := some [{ name := "id", value := some "a" },
    { name := "src", value := some "b", slot := some (.generic (.identifier "b")) }] }]

/-- A node with that branch, and with a child that breaks a rule too. -/
def twiceFaulty : Node where
  kind := .element
  conditions := some [.anchor (.identifier "c"), .branch none faultyBranch]
  children := some [{ kind := .element, tag := some "temp-node" }]

theorem twiceFaulty_reported :
    twiceFaulty.violation? Mode.wx.spelling.dialect = some ⟨"SIMP002",
        "Attribute \"src\" has both value and __exps.", "root.ifConditions[1].children[0].attrsList[1]"⟩ ∧
      ∃ i ∈ twiceFaulty.inspections Mode.wx.spelling.dialect, i.check.failure ∧
        i.check.rule = .valueWithSlot ∧ i.path = [.condition 1, .child 0, .attr 1] ∧
        (Site.node twiceFaulty).resolve? i.path = some i.site := by
  have found : twiceFaulty.violation? Mode.wx.spelling.dialect = some ⟨"SIMP002",
      "Attribute \"src\" has both value and __exps.",
      "root.ifConditions[1].children[0].attrsList[1]"⟩ := by
    decide +kernel
  obtain ⟨-, earlier, i, later, split, -, failed, -, coded, -, only, resolved, -⟩ :=
    violation?_is_first_failure _ _ _ found
  have rule := (coded .valueWithSlot).1 (by decide)
  have path := only [.condition 1, .child 0, .attr 1] (by decide +kernel)
  exact ⟨found, i, by rw [split]; simp, failed, rule.symm, path.symm, resolved⟩

end Node

end MiniTemplate.Tree
