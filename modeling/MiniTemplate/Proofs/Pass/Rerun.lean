import Mathlib.Data.List.Forall2
import MiniTemplate.Pass.Bridge
import MiniTemplate.Proofs.Pass.Spent
import MiniTemplate.Proofs.Tree.Written

/-!
# Running the pass on its own result

Read again as a markup tree, a result has the slots of attributes as known ones, and the slots
of nodes and their conditions as extra members; so a second run only moves members. The one
member that cannot be read again is a loop, which no longer has a source.
`rerun_reorders_unless_loop` says so of every result.
-/

namespace MiniTemplate

namespace Fault

open Json (Members)

theorem first?_shape {declared required : List String} {fault? : String → Json → Option Fault}
    {ms : Members} (each : ∀ m ∈ ms, ∀ fault, fault? m.1 m.2 = some fault → fault = .shape) :
    ∀ seen fault, first? declared required fault? seen ms = some fault → fault = .shape := by
  induction ms with
  | nil =>
    intro seen fault found
    rw [first?] at found
    split at found
    · cases found
    · cases found
      rfl
  | cons m ms ih =>
    obtain ⟨key, v⟩ := m
    intro seen fault found
    rw [first?] at found
    split at found
    · cases found
      rfl
    · split at found
      · rename_i own
        cases found
        exact each (key, v) (by simp) _ own
      · exact ih (fun m member => each m (by simp [member])) _ _ found

end Fault

namespace Tree.Node

/-- The nodes that children alone lead to. -/
inductive ReachesDown (root : Node) : Node → Prop where
  | root : ReachesDown root root
  | child {n c : Node} (above : ReachesDown root n) (member : c ∈ n.childList) : ReachesDown root c

theorem ReachesDown.of_child {root c n : Node} (member : c ∈ root.childList) (below : ReachesDown c n) :
    ReachesDown root n := by
  induction below with
  | root => exact .child .root member
  | child _ found ih => exact .child ih found

/-- The way down starts at a child, unless it ends at once. -/
theorem ReachesDown.cases_head {root n : Node} (reached : ReachesDown root n) :
    n = root ∨ ∃ c ∈ root.childList, ReachesDown c n := by
  induction reached with
  | root => exact Or.inl rfl
  | child _ member ih =>
    rcases ih with rfl | ⟨c, first, below⟩
    · exact Or.inr ⟨_, member, .root⟩
    · exact Or.inr ⟨c, first, .child below member⟩

end Tree.Node

namespace Pass

open Json (Members Reordered)
open Markup (Node)
open MiniTemplate.Tree (bookkeepingFields transientTag)

variable {f : Frontend} {s : Spelling}

/-! ## Attributes, read again -/

/-- The attribute that reading gives for a simplified one. -/
def rereadAttribute (a : Tree.Attribute) : Markup.Attribute :=
  { name := a.name, value := a.value, slot := a.slot.map Slot.written, extra := a.extra }

/-- A simplified attribute whose slot was read back. -/
def rewrittenAttribute (a : Tree.Attribute) : Tree.Attribute := { a with slot := a.slot.map Slot.written }

theorem toJson_rewrittenAttribute (a : Tree.Attribute) : (rewrittenAttribute a).toJson = a.toJson := by
  unfold Tree.Attribute.toJson rewrittenAttribute
  cases a.slot with
  | none => rfl
  | some slot => simp only [Option.map_some, Json.member, slot.toJson_written]

theorem SpentAttribute.merged_toJson {a : Tree.Attribute} (spent : SpentAttribute f s a) :
    a.toJson.merged = a.toJson :=
  Tree.Attribute.merged_toJson spent.extra (by decide)

theorem nullable?_slot (slot : Slot) :
    Json.nullable? Slot.ofJson? slot.toJson = some (some slot.written) := by
  have read := slot.ofJson?_toJson
  rw [Slot.toJson] at read ⊢
  rw [Json.nullable?, read]
  · rfl
  · exact fun null => Json.noConfusion null

/-- **An attribute is read again** with its slot known. -/
theorem SpentAttribute.ofJson?_toJson {a : Tree.Attribute} (spent : SpentAttribute f s a) :
    Markup.Attribute.ofJson? a.toJson = some (rereadAttribute a) := by
  have settled : Members.Settled (a.ownMembers ++ a.extra) :=
    Json.settled_of_merged_obj (a.toJson_eq ▸ spent.merged_toJson)
  have absent : ∀ key ∈ Markup.Attribute.declared, a.extra.values key = [] :=
    fun key => Members.values_of_apart spent.extra.apart
  have name : Members.values (a.ownMembers ++ a.extra) "name" = [.str a.name] := by
    simp [Tree.Attribute.ownMembers, absent "name" (by decide)]
  have value : Members.values (a.ownMembers ++ a.extra) "value" = (a.value.map Json.str).toList := by
    simp [Tree.Attribute.ownMembers, absent "value" (by decide)]
  have slot : Members.values (a.ownMembers ++ a.extra) "__exps" = (a.slot.map Slot.toJson).toList := by
    simp [Tree.Attribute.ownMembers, absent "__exps" (by decide)]
  have others : ∀ key ∈ Markup.Attribute.declared, key ∉ Tree.Attribute.declared →
      Members.values (a.ownMembers ++ a.extra) key = [] := by
    intro key declared other
    simp only [Tree.Attribute.declared, List.mem_cons, List.not_mem_nil, or_false, not_or] at other
    simp [Tree.Attribute.ownMembers, absent key declared, Ne.symm other.1, Ne.symm other.2.1,
      Ne.symm other.2.2]
  have extra : Members.extras (a.ownMembers ++ a.extra) Markup.Attribute.declared = a.extra := by
    have kept : a.extra.filter (fun m => !Markup.Attribute.declared.contains m.1) = a.extra := by
      refine List.filter_eq_self.2 fun m member => ?_
      simpa using spent.extra.apart m member
    have own : a.ownMembers.filter (fun m => !Markup.Attribute.declared.contains m.1) = [] := by
      refine List.filter_eq_nil_iff.2 fun m member => ?_
      have listed : m.1 ∈ Tree.Attribute.declared :=
        a.keys_ownMembers.subset (List.mem_map_of_mem member)
      have known : Tree.Attribute.declared ⊆ Markup.Attribute.declared := by decide
      simpa using known listed
    rw [settled.extras_eq, List.filter_append, own, kept, List.nil_append]
  have known := Members.optional?_of_values slot fun slot _ => nullable?_slot slot
  rw [a.toJson_eq]
  simp only [Markup.Attribute.ofJson?, Json.members?, Option.bind_eq_bind, Option.bind_some, Json.string?,
    Members.required?_of_values _ name, Members.optional?_string_of_values value, known, extra,
    Members.optional?_of_absent _ (others "staticClassExp" (by decide) (by decide)),
    Members.optional?_of_absent _ (others "dynamicClassExp" (by decide) (by decide)),
    Members.optional?_of_absent _ (others "staticStyleExp" (by decide) (by decide)),
    Members.optional?_of_absent _ (others "dynamicStyleExp" (by decide) (by decide)),
    Members.optional?_of_absent _ (others "eventConfigMap" (by decide) (by decide))]
  rfl

theorem reuse_written {slot : Slot} (kept : reuse slot = slot) : reuse slot.written = slot.written := by
  cases slot with
  | text tree => cases kept
  | loop tree => cases kept
  | classOrStyle fragments => rfl
  | eventMap events => rfl
  | generic tree => rfl

/-- An attribute that was read again is simplified to what it was. -/
theorem SpentAttribute.quiet {a : Tree.Attribute} (spent : SpentAttribute f s a) :
    (simplifyAttribute f (rereadAttribute a)).Quiet (rewrittenAttribute a) := by
  have slot : (attributeSlot f (rereadAttribute a)).Quiet (a.slot.map Slot.written) := by
    cases known : a.slot with
    | some slot =>
      have kept := reuse_written (spent.slot slot known).1
      simp only [attributeSlot, rereadAttribute, known, Option.map_some, kept]
      exact .pure _
    | none =>
      have same : attributeSlot f (rereadAttribute a) =
          attributeSlot f { name := a.name, value := a.value } := by
        rw [rereadAttribute, known]
        rfl
      rw [same]
      exact spent.literal known
  have value : (if (a.slot.map Slot.written).isSome then none else a.value) = a.value := by
    cases known : a.slot with
    | some slot => exact (spent.slot slot known).2.symm
    | none => rfl
  have both := slot.map fun slot =>
    ({ name := a.name, value := if slot.isSome then none else a.value, slot, extra := a.extra } :
      Tree.Attribute)
  rw [value] at both
  exact both

theorem quiet_simplifyAttributeList {as : List Tree.Attribute}
    (spent : ∀ a ∈ as, SpentAttribute f s a) :
    (simplifyAttributeList f s (as.map rereadAttribute)).Quiet (as.map rewrittenAttribute) := by
  induction as with
  | nil => exact .pure []
  | cons a as ih =>
    have first := spent a (by simp)
    have authored : s.isDirective (rereadAttribute a).name = false := first.authored
    rw [List.map_cons, simplifyAttributeList, s.isDirective_dialect, authored]
    exact first.quiet.bind ((ih fun b member => spent b (by simp [member])).map _)

/-! ## Nodes, read again -/

/-- The members of a result's JSON form, merged. -/
def formOf (t : Tree.Node) : Members := (t.ownMembers ++ t.extra).map fun m => (m.1, m.2.merged)

/-- The members that a result declares and a markup tree keeps as extra. -/
def carried (t : Tree.Node) : Members :=
  Json.member "__exps" Slot.toJson t.slot
    ++ (Json.member "ifConditions" (fun cs => .arr (Tree.Node.conditionJsons cs)) t.conditions ++ t.extra)

theorem merged_toJson_of_own {t : Tree.Node} (own : SpentNode f s t) :
    t.toJson.merged = .obj (formOf t) := by
  rw [t.toJson_eq, Json.merged_obj (Tree.Node.nodup_keys own.extra (by simp))]
  rfl

theorem values_formOf {t : Tree.Node} (own : SpentNode f s t) {key : String} (declared : key ∈ Node.declared) :
    (formOf t).values key = (Members.values t.ownMembers key).map Json.merged := by
  have absent : t.extra.values key = [] :=
    Members.values_of_apart own.extra.apart (List.mem_append_left _ declared)
  rw [formOf, Members.values_map_merged, Members.values_append, absent, List.append_nil]

/-- An optional member of a result, in the merged form. -/
theorem values_formOf_of {α : Type} {t : Tree.Node} {key : String} {write : α → Json} {a : Option α}
    (own : SpentNode f s t) (declared : key ∈ Node.declared)
    (found : Members.values t.ownMembers key = (a.map write).toList) :
    (formOf t).values key = (a.map fun x => (write x).merged).toList := by
  rw [values_formOf own declared, found]
  cases a with
  | none => rfl
  | some x => rfl

theorem settled_formOf {t : Tree.Node} (own : SpentNode f s t) : (formOf t).Settled := by
  refine Json.settled_of_merged_obj ?_
  rw [← merged_toJson_of_own own, Json.merged_merged]

theorem extras_formOf {t : Tree.Node} (own : SpentNode f s t) :
    (formOf t).extras Node.declared = (carried t).map fun m => (m.1, m.2.merged) := by
  have settled := settled_formOf own
  have kept : t.extra.filter (fun m => !Node.declared.contains m.1) = t.extra := by
    refine List.filter_eq_self.2 fun m member => ?_
    have apart := own.extra.apart m member
    rw [List.mem_append, not_or] at apart
    simpa using apart.1
  rw [settled.extras_eq, formOf, List.filter_map]
  refine congrArg (List.map _) ?_
  show (t.ownMembers ++ t.extra).filter (fun m => !Node.declared.contains m.1) = carried t
  simp only [List.filter_append, kept, carried, Tree.Node.ownMembers, List.filter_cons,
    Members.filter_member]
  simp [Node.declared]

/-- What a result is read as, given what its children are read as. -/
def rereadNode (t : Tree.Node) (children : List Node) : Node :=
  { kind := t.kind, tag := t.tag, text := t.text
    attributes := t.attributes.map fun as => as.map rereadAttribute
    children := t.children.map fun _ => children
    extra := (carried t).map fun m => (m.1, m.2.merged) }

/-- What a result becomes in a further run, given what its children become. -/
def rewrittenNode (t : Tree.Node) (children : List Tree.Node) : Tree.Node :=
  { kind := t.kind, tag := t.tag, text := t.text
    attributes := t.attributes.map fun as => as.map rewrittenAttribute
    children := t.children.map fun _ => children
    extra := (carried t).map fun m => (m.1, m.2.merged) }

theorem nullable?_attributes {as : List Tree.Attribute} (spent : ∀ a ∈ as, SpentAttribute f s a) :
    Json.nullable? (Json.list? Markup.Attribute.ofJson?) (Json.arr (as.map Tree.Attribute.toJson)).merged =
      some (some (as.map rereadAttribute)) := by
  have each : (Json.mergedItems (as.map Tree.Attribute.toJson)).mapM Markup.Attribute.ofJson? =
      some (as.map rereadAttribute) := by
    rw [Json.mergedItems_eq_map]
    induction as with
    | nil => rfl
    | cons a as ih =>
      have first := spent a (by simp)
      rw [List.map_cons, List.map_cons, List.mapM_cons, first.merged_toJson, first.ofJson?_toJson,
        ih fun b member => spent b (by simp [member])]
      rfl
  rw [Json.merged, Json.nullable?, Json.list?, each]
  · rfl
  · exact fun null => Json.noConfusion null

theorem nullable?_children {nodes : List Tree.Node} {bound : Nat} {children : List Node}
    (below : (nodes.map fun c => c.toJson.merged).mapM (Node.ofJsonWithin? bound) = some children) :
    Json.nullable? (Json.list? (Node.ofJsonWithin? bound)) (Json.arr (nodes.map Tree.Node.toJson)).merged =
      some (some children) := by
  rw [Json.merged, Json.mergedItems_eq_map, List.map_map, Json.nullable?, Json.list?]
  · exact congrArg (Option.map some) below
  · exact fun null => Json.noConfusion null

/-- **A result is read again** if it has no loop and its children are read again. -/
theorem ofJsonWithin?_formOf {t : Tree.Node} (own : SpentNode f s t) (unlooped : t.loop = none)
    {bound : Nat} {children : List Node}
    (below : (t.childList.map fun c => c.toJson.merged).mapM (Node.ofJsonWithin? bound) = some children) :
    Node.ofJsonWithin? (bound + 1) (.obj (formOf t)) = some (rereadNode t children) := by
  have kind : (formOf t).values "type" = [t.kind.toJson] :=
    (values_formOf own (by decide)).trans (by simp [Tree.Node.ownMembers, NodeKind.toJson, Json.merged])
  have kindRead : NodeKind.ofJson? t.kind.toJson = some t.kind := by cases t.kind <;> rfl
  have tag : (formOf t).values "tag" = (t.tag.map Json.str).toList :=
    values_formOf_of own (by decide) t.values_tag
  have text : (formOf t).values "text" = (t.text.map Json.str).toList :=
    values_formOf_of own (by decide) t.values_text
  have list := values_formOf_of own (by decide) t.values_attributes
  have kids := values_formOf_of own (by decide) t.values_children
  -- What markup alone declares is not written of a result. Of the members that both declare only
  -- the loop would be in the way, and there is none.
  have others : ∀ key ∈ ["attrsMap", "if", "elseif", "else", "for", "_if"],
      Members.values t.ownMembers key = [] := by
    simp [Tree.Node.ownMembers, unlooped]
  have absent : ∀ key ∈ ["attrsMap", "if", "elseif", "else", "for", "_if"],
      (formOf t).values key = [] := by
    intro key member
    have declared : ∀ key ∈ ["attrsMap", "if", "elseif", "else", "for", "_if"], key ∈ Node.declared := by
      decide
    rw [values_formOf own (declared key member), others key member, List.map_nil]
  have each : ∀ as, t.attributes = some as → ∀ a ∈ as, SpentAttribute f s a := by
    intro as same
    have spent := own.each
    rwa [Tree.Node.attributeList, same] at spent
  have listRead := Members.optional?_of_values list fun as same => nullable?_attributes (each as same)
  have kidsRead := Members.optional?_of_values kids fun nodes same =>
    nullable?_children (by rwa [Tree.Node.childList, same] at below)
  rw [Node.ofJsonWithin?]
  simp only [Json.members?, Option.bind_eq_bind, Option.bind_some, Members.required?_of_values _ kind,
    kindRead, Members.optional?_string_of_values tag, Members.optional?_string_of_values text, listRead,
    kidsRead, extras_formOf own, Members.flag?,
    Members.optional?_of_absent _ (absent "attrsMap" (by decide)),
    Members.optional?_of_absent _ (absent "if" (by decide)),
    Members.optional?_of_absent _ (absent "elseif" (by decide)), absent "else" (by decide),
    Members.optional?_of_absent _ (absent "for" (by decide)),
    Members.optional?_of_absent _ (absent "_if" (by decide))]
  rfl

/-! ## The second run -/

theorem quiet_simplifyAttributes {t : Tree.Node} (own : SpentNode f s t) (children : List Node) :
    (simplifyAttributes f s (rereadNode t children).attributeList).Quiet
      (t.attributes.map fun as => as.map rewrittenAttribute) := by
  cases given : t.attributes with
  | none =>
    rw [Node.attributeList, rereadNode, given]
    exact .pure none
  | some as =>
    have spentAll : ∀ a ∈ as, SpentAttribute f s a := by
      have each := own.each
      rwa [Tree.Node.attributeList, given] at each
    have same : (rereadNode t children).attributeList = as.map rereadAttribute := by
      rw [Node.attributeList, rereadNode, given]
      rfl
    have some : unlessEmpty (as.map rewrittenAttribute) = some (as.map rewrittenAttribute) := by
      cases as with
      | nil => exact (own.attributes given).elim
      | cons a as => rfl
    rw [same, Option.map_some, ← some]
    exact (quiet_simplifyAttributeList spentAll).map unlessEmpty

theorem simplifyExtra_carried {t : Tree.Node} (own : SpentNode f s t) :
    simplifyExtra ((carried t).map fun m => (m.1, m.2.merged)) =
      (carried t).map fun m => (m.1, m.2.merged) := by
  have kept := own.kept
  have all : simplifyExtra (carried t) = carried t := by
    unfold simplifyExtra at kept ⊢
    rw [carried, List.filter_append, List.filter_append, kept]
    cases t.slot <;> cases t.conditions <;> simp [Json.member, bookkeepingFields, Node.placeholderMark]
  rw [simplifyExtra, List.filter_map]
  exact congrArg _ all

theorem map_simplifyTag {tag : Option String} (renamed : tag ≠ some transientTag) :
    tag.map simplifyTag = tag := by
  cases tag with
  | none => rfl
  | some tag =>
    have other : (tag == transientTag) = false := beq_false_of_ne fun same => renamed (by rw [same])
    simp [simplifyTag, other]

/-- **A node that was read again** is simplified without asking for a tree. -/
theorem quiet_rereadNode {t : Tree.Node} {children : List Node} {nodes : List Tree.Node}
    (own : SpentNode f s t)
    (below : (simplifyChildren f s (t.children.map fun _ => children)).Quiet (t.children.map fun _ => nodes)) :
    (simplifyNode f s (rereadNode t children)).Quiet (rewrittenNode t nodes) := by
  have attributes := quiet_simplifyAttributes own children
  have extra := simplifyExtra_carried own
  rw [simplifyNode_eq]
  refine Trace.Quiet.bind (.pure none) (attributes.bind (own.content.bind (below.bind ?_)))
  have same : rewrittenNode t nodes =
      { kind := t.kind, tag := t.tag.map simplifyTag, text := t.text
        attributes := t.attributes.map fun as => as.map rewrittenAttribute
        children := t.children.map fun _ => nodes
        extra := simplifyExtra ((carried t).map fun m => (m.1, m.2.merged)) } := by
    rw [map_simplifyTag own.tag, extra, rewrittenNode]
  rw [same]
  exact .pure _

/-- The members that both runs write first. -/
def headMembers (t : Tree.Node) : Members :=
  ("type", t.kind.toJson) :: (Json.member "tag" .str t.tag ++ (Json.member "text" .str t.text
    ++ Json.member "attrsList" (fun as => .arr (as.map Tree.Attribute.toJson)) t.attributes))

theorem headMembers_rewrittenNode (t : Tree.Node) (nodes : List Tree.Node) :
    headMembers (rewrittenNode t nodes) = headMembers t := by
  have same : ∀ as : List Tree.Attribute,
      (as.map rewrittenAttribute).map Tree.Attribute.toJson = as.map Tree.Attribute.toJson := by
    intro as
    rw [List.map_map]
    exact List.map_congr_left fun a _ => toJson_rewrittenAttribute a
  unfold headMembers rewrittenNode
  cases t.attributes with
  | none => rfl
  | some as => simp only [Option.map_some, Json.member, same]

/-- The children of both runs, compared as members. -/
theorem forall₂_children {nodes : List Tree.Node} {children : Option (List Tree.Node)}
    (below : List.Forall₂ (fun a b => Reordered a.toJson.merged b.toJson.merged) nodes (children.getD [])) :
    List.Forall₂ (fun m n => m.1 = n.1 ∧ Reordered m.2.merged n.2.merged)
      (Json.member "children" (fun nodes => .arr (nodes.map Tree.Node.toJson)) (children.map fun _ => nodes))
      (Json.member "children" (fun nodes => .arr (nodes.map Tree.Node.toJson)) children) := by
  cases children with
  | none => exact .nil
  | some kids =>
    refine .cons ⟨rfl, ?_⟩ .nil
    simp only [Json.merged, Json.mergedItems_eq_map, List.map_map]
    obtain ⟨length, pairs⟩ := List.forall₂_iff_zip.1 below
    refine .arr (by simpa using length) fun p member => ?_
    rw [List.zip_map] at member
    obtain ⟨⟨a, b⟩, pair, rfl⟩ := List.mem_map.1 member
    exact pairs pair

/-- **The second run writes the same members** in another order. -/
theorem reordered_rewrittenNode {t : Tree.Node} {nodes : List Tree.Node} (own : SpentNode f s t)
    (unlooped : t.loop = none)
    (below : List.Forall₂ (fun a b => Reordered a.toJson.merged b.toJson.merged) nodes t.childList) :
    Reordered (rewrittenNode t nodes).toJson.merged t.toJson.merged := by
  have once := Tree.Node.nodup_keys own.extra (by simp)
  let kids : Members := Json.member "children" (fun nodes => .arr (nodes.map Tree.Node.toJson)) t.children
  have order : (headMembers t ++ (kids ++ carried t)).Perm (t.ownMembers ++ t.extra) := by
    have form : t.ownMembers ++ t.extra = headMembers t ++ (Json.member "__exps" Slot.toJson t.slot
        ++ (Json.member "ifConditions" (fun cs => .arr (Tree.Node.conditionJsons cs)) t.conditions
        ++ (kids ++ t.extra))) := by
      simp [Tree.Node.ownMembers, headMembers, unlooped, Json.member, kids]
    rw [form, carried]
    refine List.Perm.append_left _ ((List.perm_append_comm_assoc ..).trans (List.Perm.append_left _ ?_))
    exact List.perm_append_comm_assoc ..
  have form : (rewrittenNode t nodes).ownMembers ++ (rewrittenNode t nodes).extra =
      headMembers (rewrittenNode t nodes)
      ++ (Json.member "children" (fun nodes => .arr (nodes.map Tree.Node.toJson)) (t.children.map fun _ => nodes)
      ++ (carried t).map fun m => (m.1, m.2.merged)) := by
    simp [Tree.Node.ownMembers, headMembers, rewrittenNode, Json.member]
  rw [t.toJson_eq, Tree.Node.toJson_eq, form, headMembers_rewrittenNode]
  refine Json.reordered_merged_obj ?_ order once
  refine List.rel_append ?_ (List.rel_append (forall₂_children below) ?_)
  · exact List.forall₂_same.2 fun m _ => ⟨rfl, .refl _⟩
  · rw [List.forall₂_map_left_iff]
    refine List.forall₂_same.2 fun m _ => ⟨rfl, ?_⟩
    rw [Json.merged_merged]
    exact .refl _

/-- A node that was read again is no placeholder. -/
theorem isPlaceholder_rereadNode {t : Tree.Node} (own : SpentNode f s t) (children : List Node) :
    (rereadNode t children).isPlaceholder = false := by
  have absent : Members.get? (rereadNode t children).extra Node.placeholderMark = none := by
    refine List.lookup_eq_none_iff.2 fun m member => ?_
    have kept : m ∈ simplifyExtra ((carried t).map fun m => (m.1, m.2.merged)) := by
      rw [simplifyExtra_carried own]
      exact member
    have other := (List.mem_filter.1 kept).2
    simp only [Bool.not_eq_true', Bool.or_eq_false_iff, beq_eq_false_iff_ne] at other
    simpa using Ne.symm other.2
  rw [Node.isPlaceholder, absent]

/-- What a further run makes of a node of a result: it is read as a node that belongs to no
chain and stays, and from which nothing is extracted. -/
structure Rerun (f : Frontend) (s : Spelling) (t : Tree.Node) (n : Node) (again : Tree.Node) : Prop where
  present : n.isPlaceholder = false
  role : Role.of n = .none
  alive : isDead n = false
  node : (simplifyNode f s n).Quiet again
  same : Reordered again.toJson.merged t.toJson.merged

/-- Siblings that belong to no chain and stay are kept as they are. -/
theorem rerun_siblings {nodes : List Tree.Node} {bound : Nat}
    (each : ∀ c ∈ nodes, ∃ n again,
      Node.ofJsonWithin? bound c.toJson.merged = some n ∧ Rerun f s c n again) :
    ∃ ns agains, (nodes.map fun c => c.toJson.merged).mapM (Node.ofJsonWithin? bound) = some ns ∧
      (∀ reach, ∃ placed, (placeAll f s reach ns).Quiet placed ∧ gather placed = ([], agains)) ∧
      List.Forall₂ (fun a b => Reordered a.toJson.merged b.toJson.merged) agains nodes := by
  induction nodes with
  | nil => exact ⟨[], [], rfl, fun _ => ⟨[], by rw [placeAll]; exact .pure [], rfl⟩, .nil⟩
  | cons c nodes ih =>
    obtain ⟨n, again, read, first⟩ := each c (by simp)
    obtain ⟨ns, agains, reads, placed, same⟩ := ih fun d member => each d (by simp [member])
    refine ⟨n :: ns, again :: agains, ?_, fun reach => ?_, .cons first.same same⟩
    · rw [List.map_cons, List.mapM_cons, read, reads]
      rfl
    · obtain ⟨rest, later, gathered⟩ := placed (reachAfter reach n)
      refine ⟨.plain again false :: rest, ?_, by rw [gather, gathered]; rfl⟩
      have here : (do return Placed.plain (← simplifyNode f s n) (isDead n) : Trace Placed).Quiet
          (.plain again false) := by
        rw [first.alive]
        exact first.node.map fun t => Placed.plain t false
      rw [placeAll, first.present, first.role]
      exact here.bind (later.map _)

theorem depth_child_lt {t c : Tree.Node} {bound : Nat} (own : SpentNode f s t) (child : c ∈ t.childList)
    (deep : t.toJson.merged.depth < bound + 1) : c.toJson.merged.depth < bound := by
  cases given : t.children with
  | none =>
    rw [Tree.Node.childList, given] at child
    cases child
  | some nodes =>
    rw [Tree.Node.childList, given] at child
    have member : ("children", (Json.arr (nodes.map Tree.Node.toJson)).merged) ∈ formOf t := by
      have listed : ("children", Json.arr (nodes.map Tree.Node.toJson)) ∈ t.ownMembers := by
        simp [Tree.Node.ownMembers, given, Json.member]
      exact List.mem_map.2 ⟨_, List.mem_append_left _ listed, rfl⟩
    have item : c.toJson.merged ∈ Json.mergedItems (nodes.map Tree.Node.toJson) := by
      rw [Json.mergedItems_eq_map, List.map_map]
      exact List.mem_map_of_mem child
    have below := Json.depth_le_depthMembers member
    have inside := Json.depth_le_depthItems item
    rw [merged_toJson_of_own own, Json.depth] at deep
    simp only [Json.merged, Json.depth] at below
    omega

/-- **A result without loops is run again** to what it was, up to the order of members. -/
theorem rerun_of_spent {t : Tree.Node} {bound : Nat} (spent : Spent f s t)
    (unlooped : ∀ n, t.ReachesDown n → n.loop = none) (deep : t.toJson.merged.depth < bound) :
    ∃ n again, Node.ofJsonWithin? bound t.toJson.merged = some n ∧ Rerun f s t n again := by
  induction spent generalizing bound with
  | @mk t own below ih =>
    cases bound with
    | zero => cases deep
    | succ bound =>
      have kids : ∀ c ∈ t.childList, ∃ n again,
          Node.ofJsonWithin? bound c.toJson.merged = some n ∧ Rerun f s c n again := by
        intro c child
        refine ih c child ?_ (depth_child_lt own child deep)
        exact fun n reached => unlooped n (.of_child child reached)
      obtain ⟨ns, agains, reads, placed, same⟩ := rerun_siblings kids
      have second : (simplifyChildren f s (t.children.map fun _ => ns)).Quiet
          (t.children.map fun _ => agains) := by
        cases given : t.children with
        | none => exact .pure none
        | some nodes =>
          obtain ⟨list, first, gathered⟩ := placed false
          have filled : unlessEmpty (assemble list) = some agains := by
            rw [Tree.Node.childList, given] at same
            rw [assemble, gathered]
            cases same with
            | nil => exact (own.children given).elim
            | cons => rfl
          rw [Option.map_some, Option.map_some, ← filled, simplifyChildren]
          exact first.map _
      refine ⟨rereadNode t ns, rewrittenNode t agains, ?_, isPlaceholder_rereadNode own ns, rfl, rfl,
        quiet_rereadNode own second, reordered_rewrittenNode own (unlooped t .root) same⟩
      rw [merged_toJson_of_own own]
      exact ofJsonWithin?_formOf own (unlooped t .root) reads

/-! ## Loops -/

/-- A simplified loop has no source and cannot be read again. -/
theorem ofJson?_loop {l : Tree.Loop} (kept : l.extra.KeptBy Markup.Loop.declared) :
    Markup.Loop.ofJson? l.toJson.merged = none := by
  have absent : l.extra.values "exp" = [] := Members.values_of_apart kept.apart (by decide)
  rw [Tree.Loop.toJson, Json.merged, Option.eq_none_iff_forall_ne_some]
  intro loop read
  simp only [Markup.Loop.ofJson?, Json.members?, Option.bind_eq_bind, Option.bind_eq_some_iff,
    Option.some.injEq, exists_eq_left'] at read
  obtain ⟨raw, -, source, found, -⟩ := read
  rw [Members.required?, Members.values_mergedMembers (by simp [absent])] at found
  cases found

theorem nullable?_loop {l : Tree.Loop} (kept : l.extra.KeptBy Markup.Loop.declared) :
    Json.nullable? Markup.Loop.ofJson? l.toJson.merged = none := by
  have unread := ofJson?_loop kept
  rw [Tree.Loop.toJson, Json.merged] at unread ⊢
  rw [Json.nullable?, unread]
  · rfl
  · exact fun null => Json.noConfusion null

/-- **A result with a loop cannot be read again**, however deep children lead to the loop. -/
theorem ofJsonWithin?_of_loop {t n : Tree.Node} {l : Tree.Loop} (spent : Spent f s t)
    (reached : t.ReachesDown n) (looped : n.loop = some l) (bound : Nat) :
    Node.ofJsonWithin? bound t.toJson.merged = none := by
  induction spent generalizing bound with
  | @mk t own below ih =>
    cases bound with
    | zero => rfl
    | succ bound =>
      rw [Option.eq_none_iff_forall_ne_some, merged_toJson_of_own own]
      intro again read
      simp only [Node.ofJsonWithin?, Json.members?, Option.bind_eq_bind, Option.bind_eq_some_iff,
        Option.some.injEq, exists_eq_left'] at read
      obtain ⟨kind, -, tag, -, text, -, list, -, map, -, kids, hkids, ifGuard, -, elseIfGuard, -,
        isElse, -, again, hloop, -⟩ := read
      rcases reached.cases_head with rfl | ⟨c, child, deeper⟩
      · have found := values_formOf_of own (by decide) n.values_loop
        rw [looped] at found
        rw [Members.optional?_of_single _ found, nullable?_loop (own.loop l looped)] at hloop
        cases hloop
      · have found := values_formOf_of own (by decide) t.values_children
        have unread := ih c child deeper bound
        cases given : t.children with
        | none =>
          rw [Tree.Node.childList, given] at child
          cases child
        | some nodes =>
          rw [Tree.Node.childList, given] at child
          simp only [given, Option.map_some, Option.toList_some, Json.merged, Json.mergedItems_eq_map,
            List.map_map] at found
          rw [Members.optional?_of_single _ found] at hkids
          obtain ⟨xs, reads, -⟩ := Option.map_eq_some_iff.1 hkids
          obtain ⟨x, read⟩ := forall_of_mapM reads _ (List.mem_map_of_mem child)
          exact Option.some_ne_none x (read.symm.trans unread)

/-! ## What is wrong with a result that has a loop -/

theorem memberFault?_shape {key : String} {v : Json} {fault : Fault} (other : key ≠ "type")
    (found : Node.memberFault? key v = some fault) : fault = .shape := by
  have ofRead : ∀ {α : Type} {read : Option α}, Fault.ofRead read = some fault → fault = .shape := by
    intro α read found
    cases read with
    | some a => cases found
    | none =>
      cases found
      rfl
  unfold Node.memberFault? at found
  split at found
  case h_1 => exact (other rfl).elim
  case h_11 => cases found
  all_goals exact ofRead found

theorem fault?_kind (kind : NodeKind) : NodeKind.fault? kind.toJson.merged = none := by
  cases kind <;> rfl

/-- Whatever is wrong with a result as a markup tree is a fault of shape. -/
theorem faultWithin?_shape {t : Tree.Node} (spent : Spent f s t) (bound : Nat) :
    ∀ fault, Node.faultWithin? bound t.toJson.merged = some fault → fault = .shape := by
  induction spent generalizing bound with
  | @mk t own below ih =>
    cases bound with
    | zero =>
      intro fault found
      cases found
      rfl
    | succ bound =>
      rw [merged_toJson_of_own own, Node.faultWithin?]
      refine Fault.first?_shape (fun m member fault found => ?_) []
      have value := Members.mem_values member
      by_cases isChildren : m.1 = "children"
      · rw [isChildren, values_formOf_of own (by decide) t.values_children] at value
        cases given : t.children with
        | none =>
          rw [given] at value
          cases value
        | some nodes =>
          simp only [given, Option.map_some, Option.toList_some, List.mem_singleton, Json.merged,
            Json.mergedItems_eq_map, List.map_map] at value
          simp only [isChildren, beq_self_eq_true, if_true, value, Fault.inList?] at found
          obtain ⟨item, inside, found⟩ := List.exists_of_findSome?_eq_some found
          obtain ⟨c, child, rfl⟩ := List.mem_map.1 inside
          have child : c ∈ t.childList := by
            rw [Tree.Node.childList, given]
            exact child
          exact ih c child bound fault found
      · rw [beq_false_of_ne isChildren] at found
        -- The kind is the one member that may have another fault than its shape, but it was written from
        -- a kind.
        by_cases isKind : m.1 = "type"
        · have kind : Members.values t.ownMembers "type" = [t.kind.toJson] := by
            simp [Tree.Node.ownMembers]
          rw [isKind, values_formOf own (by decide), kind] at value
          rw [isKind, List.mem_singleton.1 value] at found
          exact Option.some_ne_none fault (found.symm.trans (fault?_kind t.kind)) |>.elim
        · exact memberFault?_shape isKind found

theorem read_of_loop {t n : Tree.Node} {l : Tree.Loop} (spent : Spent f s t)
    (reached : t.ReachesDown n) (looped : n.loop = some l) :
    Node.read t.toJson.merged = .error .shape := by
  have fault : Node.fault t.toJson.merged = .shape := by
    unfold Node.fault
    cases found : Node.faultWithin? (t.toJson.merged.depth + 1) t.toJson.merged with
    | none => rfl
    | some fault => exact faultWithin?_shape spent _ fault found
  have unread : Node.ofJson? t.toJson.merged = none := ofJsonWithin?_of_loop spent reached looped _
  rw [Node.read, unread, fault]

/-! ## Running twice -/

theorem ofName?_name (mode : Mode) : Mode.ofName? mode.name = some mode := by
  cases mode <;> decide

theorem step_of_read {mode : Mode} {tree : Json} {root : Node} {t : Tree.Node}
    (read : Node.read tree = .ok root) (done : simplify { mode } root = .ok t) :
    step mode.name tree = .ok t.toJson.merged := by
  simp [step, ofName?_name, read, done, Except.mapError, Bind.bind, Except.bind, Pure.pure, Except.pure]

theorem step_of_fault {mode : Mode} {tree : Json} {fault : Fault} (unread : Node.read tree = .error fault) :
    step mode.name tree = .error (.tree fault) := by
  simp [step, ofName?_name, unread, Except.mapError, Bind.bind, Except.bind, Pure.pure, Except.pure]

theorem read_of_ofJson? {v : Json} {n : Node} (read : Node.ofJson? v = some n) : Node.read v = .ok n := by
  rw [Node.read, read]

/-- A result to which children alone lead no loop is run again. -/
theorem reruns_of_unlooped {mode : Mode} {t : Tree.Node} (spent : Spent .standard mode.spelling t)
    (unlooped : ¬ ∃ n, t.ReachesDown n ∧ n.loop.isSome = true) :
    ∃ second again, Node.read t.toJson.merged = .ok second ∧ simplify { mode } second = .ok again ∧
      step mode.name t.toJson.merged = .ok again.toJson.merged ∧
      Reordered again.toJson.merged t.toJson.merged ∧
      ∀ source, Call.parse source ∉ (simplifyTraced .standard { mode } second).calls := by
  have none : ∀ n, t.ReachesDown n → n.loop = none := by
    intro n reached
    cases loop : n.loop with
    | none => rfl
    | some l => exact (unlooped ⟨n, reached, by rw [loop]; rfl⟩).elim
  obtain ⟨second, again, reads, rerun⟩ := rerun_of_spent spent none (Nat.lt_succ_self _)
  have root : simplifyRoot .standard mode.spelling second = simplifyNode .standard mode.spelling second := by
    rw [simplifyRoot, rerun.role]
  have read := read_of_ofJson? reads
  have result : simplify { mode } second = .ok again := by
    rw [simplify, simplifyWith_eq_of_apart (Node.apart_of_ofJson? reads), root]
    exact rerun.node.result
  refine ⟨second, again, read, result, step_of_read read result, rerun.same, fun source asked => ?_⟩
  rw [simplifyTraced_calls, root] at asked
  exact rerun.node.calls source asked

/-- **Running the pass on its own result**, in the same mode, fails with a fault of shape iff
children alone lead to a loop. Otherwise it succeeds, and the second result has the JSON form of
the first up to the order of members; the second run asks for no tree. -/
theorem rerun_reorders_unless_loop (mode : Mode) {v : Json} {root : Node} {t : Tree.Node}
    (read : Node.ofJson? v = some root) (fresh : Fresh root) (done : simplify { mode } root = .ok t) :
    run v [mode.name, mode.name] = [.ok t.toJson.merged, step mode.name t.toJson.merged] ∧
    (step mode.name t.toJson.merged = .error (.tree .shape) ↔
      ∃ n, t.ReachesDown n ∧ n.loop.isSome = true) ∧
    ((¬ ∃ n, t.ReachesDown n ∧ n.loop.isSome = true) →
      ∃ second again, Node.read t.toJson.merged = .ok second ∧ simplify { mode } second = .ok again ∧
        step mode.name t.toJson.merged = .ok again.toJson.merged ∧
        Reordered again.toJson.merged t.toJson.merged ∧
        ∀ source, Call.parse source ∉ (simplifyTraced .standard { mode } second).calls) := by
  have spent : Spent .standard mode.spelling t := by
    rw [simplify, simplifyWith_eq_of_apart (Node.apart_of_ofJson? read)] at done
    exact spent_of_simplifyRoot (Node.wellKept_of_ofJson? read) fresh done
  refine ⟨?_, ⟨fun failed => ?_, ?_⟩, reruns_of_unlooped spent⟩
  · rw [run, step_of_read (read_of_ofJson? read) done]
    simp only [run]
    cases step mode.name t.toJson.merged <;> rfl
  · by_contra unlooped
    obtain ⟨_, _, -, -, succeeded, -⟩ := reruns_of_unlooped spent unlooped
    rw [failed] at succeeded
    cases succeeded
  · rintro ⟨n, reached, looped⟩
    obtain ⟨l, looped⟩ := Option.isSome_iff_exists.1 looped
    exact step_of_fault (read_of_loop spent reached looped)

/-- A chain whose branch has a loop, with a slot, a text and a member to keep. -/
def loopInBranch : Json :=
  .obj [("type", .num (.int 1)), ("tag", .str "view"), ("id", .num (.int 7)),
    ("attrsList", .arr [.obj [("name", .str "class"), ("dynamicClassExp", .str "a")],
      .obj [("name", .str "title"), ("value", .str "plain")]]),
    ("children", .arr [
      .obj [("type", .num (.int 3)), ("if", .obj [("exp", .str "b")]), ("text", .str "\x7b\x7bc\x7d\x7d")],
      .obj [("type", .num (.int 1)), ("else", .bool true), ("for", .obj [("exp", .str "d")])]])]

/-- The loop of a branch is carried along with the conditions of its chain. -/
theorem loopInBranch_reorders :
    ∃ root t, Node.ofJson? loopInBranch = some root ∧ Fresh root ∧ simplify { mode := .wx } root = .ok t ∧
      ∃ next, run loopInBranch ["wx", "wx"] = [.ok t.toJson.merged, .ok next] ∧
        Reordered next t.toJson.merged := by
  have reorders : ∀ {root t}, Node.ofJson? loopInBranch = some root → Fresh root →
      simplify { mode := .wx } root = .ok t → (¬ ∃ n, t.ReachesDown n ∧ n.loop.isSome = true) →
      Node.ofJson? loopInBranch = some root ∧ Fresh root ∧ simplify { mode := .wx } root = .ok t ∧
        ∃ next, run loopInBranch ["wx", "wx"] = [.ok t.toJson.merged, .ok next] ∧
          Reordered next t.toJson.merged := by
    intro root t read fresh done unlooped
    obtain ⟨runs, -, again⟩ := rerun_reorders_unless_loop .wx read fresh done
    obtain ⟨_, next, -, -, succeeds, same, -⟩ := again unlooped
    rw [succeeds] at runs
    exact ⟨read, fresh, done, next.toJson.merged, runs, same⟩
  have id : ∀ m ∈ [("id", Json.num (.int 7))], m.1 ≠ "__exps" ∧ m.1 ≠ "ifConditions" := by simp
  refine ⟨_, _, reorders rfl ?_ rfl ?_⟩
  · refine .mk id fun c member => ?_
    cases member with
    | head => exact .mk nofun nofun
    | tail _ member =>
      cases member with
      | head => exact .mk nofun nofun
      | tail _ member => cases member
  · rintro ⟨n, reached, looped⟩
    rcases reached.cases_head with rfl | ⟨c, member, below⟩
    · cases looped
    · cases member with
      | head =>
        rcases below.cases_head with rfl | ⟨d, member, -⟩
        · cases looped
        · cases member
      | tail _ member => cases member

end Pass

end MiniTemplate
