import MiniTemplate.Proofs.Script.Written
import MiniTemplate.Tree.Codec

/-!
# Generator trees that are written

The JSON forms of slots, attributes, loops and nodes, member by member. A slot is read back
as `Slot.written`, which has the same JSON form. An attribute, a loop and a node repeat no
member unless an extra one has the name of a declared one.
-/

namespace MiniTemplate

open Json (Members)
open Script (writtenAll writtenElements)

/-! ## Slots -/

/-- What the handlers of an event are read back as. -/
def Handlers.written (h : Handlers) : Handlers :=
  { event := h.event, handlers := writtenAll h.handlers }

/-- **What a slot is read back as.** -/
def Slot.written : Slot → Slot
  | .text tree => .text tree.written
  | .loop tree => .loop tree.written
  | .classOrStyle fragments => .classOrStyle (writtenElements fragments)
  | .eventMap events => .eventMap (events.map Handlers.written)
  | .generic tree => .generic tree.written

theorem Handlers.toJson_written (h : Handlers) : h.written.toJson = h.toJson := by
  rw [written, toJson, toJson, Script.toJsons_writtenAll]

theorem Handlers.merged_toJson (h : Handlers) : h.toJson.merged = h.toJson := by
  rw [toJson, Json.merged_obj (by simp)]
  simp [Json.merged, Script.mergedItems_toJsons]

theorem Handlers.ofJson?_toJson (h : Handlers) : Handlers.ofJson? h.toJson = some h.written := by
  simp [toJson, ofJson?, Json.named, Json.members?, Members.required?, Json.string?,
    Script.list?_toJsons, written]

namespace Slot

theorem kind_written (s : Slot) : s.written.kind = s.kind := by
  cases s <;> rfl

theorem content_written (s : Slot) : s.written.content = s.content := by
  cases s with
  | text tree => exact tree.toJson_written
  | loop tree => exact tree.toJson_written
  | generic tree => exact tree.toJson_written
  | classOrStyle fragments => exact congrArg Json.arr (Script.elementJsons_writtenElements fragments)
  | eventMap events =>
    refine congrArg Json.arr ?_
    rw [List.map_map]
    exact List.map_congr_left fun h _ => h.toJson_written

theorem toJson_written (s : Slot) : s.written.toJson = s.toJson := by
  rw [toJson, toJson, kind_written, content_written]

theorem merged_content (s : Slot) : s.content.merged = s.content := by
  cases s with
  | text tree => exact tree.merged_toJson
  | loop tree => exact tree.merged_toJson
  | generic tree => exact tree.merged_toJson
  | classOrStyle fragments => exact congrArg Json.arr (Script.mergedItems_elementJsons fragments)
  | eventMap events =>
    refine congrArg Json.arr ?_
    rw [Json.mergedItems_eq_map, List.map_map]
    exact List.map_congr_left fun h _ => h.merged_toJson

/-- **The JSON form of a slot repeats no member.** -/
theorem merged_toJson (s : Slot) : s.toJson.merged = s.toJson := by
  rw [toJson, Json.merged_obj (by simp)]
  simp [Json.merged, s.merged_content]

theorem list?_handlers (events : List Handlers) :
    Json.list? Handlers.ofJson? (.arr (events.map Handlers.toJson)) =
      some (events.map Handlers.written) := by
  rw [Json.list?]
  induction events with
  | nil => rfl
  | cons h events ih =>
    rw [List.map_cons, List.mapM_cons, h.ofJson?_toJson, ih]
    rfl

theorem ofContent?_content (s : Slot) : ofContent? s.kind s.content = some s.written := by
  cases s with
  | text tree => simp [ofContent?, kind, content, written, tree.ofJson?_toJson]
  | loop tree => simp [ofContent?, kind, content, written, tree.ofJson?_toJson]
  | generic tree => simp [ofContent?, kind, content, written, tree.ofJson?_toJson]
  | classOrStyle fragments =>
    simp [ofContent?, kind, content, written, Script.list?_elementJsons]
  | eventMap events => simp [ofContent?, kind, content, written, list?_handlers]

/-- **What is read back from a slot's JSON form.** -/
theorem ofJson?_toJson (s : Slot) : ofJson? s.toJson = some s.written := by
  simp [toJson, ofJson?, Json.named, Json.members?, Members.required?, Json.name?,
    s.ofContent?_content]

end Slot

/-! ## Members in front of extra ones -/

namespace Json

theorem keys_member_sublist {α : Type} (key : String) (write : α → Json) (a : Option α) :
    ((member key write a).map Prod.fst).Sublist [key] := by
  cases a with
  | none => exact List.nil_sublist _
  | some a => exact List.Sublist.refl _

theorem map_merged_member {α : Type} (key : String) (write : α → Json) (a : Option α) :
    (member key write a).map (fun m => (m.1, m.2.merged)) =
      member key (fun x => (write x).merged) a := by
  cases a with
  | none => rfl
  | some a => rfl

theorem member_congr {α : Type} {key : String} {write other : α → Json} {a : Option α}
    (same : ∀ x, a = some x → write x = other x) : member key write a = member key other a := by
  cases a with
  | none => rfl
  | some x => rw [member, member, same x rfl]

/-- Declared members and what is kept beside them do not repeat. -/
theorem Members.KeptBy.nodup_keys {declared names : List String} {ms extra : Members}
    (kept : extra.KeptBy declared) (listed : (ms.map Prod.fst).Sublist names) (once : names.Nodup)
    (known : names ⊆ declared) : ((ms ++ extra).map Prod.fst).Nodup := by
  rw [List.map_append, List.nodup_append]
  refine ⟨once.sublist listed, kept.once, ?_⟩
  rintro name first _ second rfl
  obtain ⟨m, member, rfl⟩ := List.mem_map.1 second
  exact kept.apart m member (known (listed.subset first))

end Json

namespace Tree

/-! ## Attributes, loops and nodes -/

namespace Attribute

/-- The members of an attribute's JSON form that the attribute declares. -/
def ownMembers (a : Attribute) : Members :=
  ("name", .str a.name) :: (Json.member "value" .str a.value
    ++ Json.member "__exps" Slot.toJson a.slot)

theorem toJson_eq (a : Attribute) : a.toJson = .obj (a.ownMembers ++ a.extra) := by
  rw [toJson, ownMembers, List.cons_append]

theorem keys_ownMembers (a : Attribute) : (a.ownMembers.map Prod.fst).Sublist declared := by
  rw [ownMembers, List.map_cons, List.map_append]
  refine List.Sublist.cons_cons "name" ?_
  exact (Json.keys_member_sublist "value" ..).append (Json.keys_member_sublist "__exps" ..)

/-- The JSON form of an attribute repeats no member. -/
theorem merged_toJson {a : Attribute} {names : List String} (kept : a.extra.KeptBy names)
    (known : declared ⊆ names) : a.toJson.merged = a.toJson := by
  have once := kept.nodup_keys a.keys_ownMembers (by decide) known
  rw [toJson_eq, Json.merged_obj once, List.map_append, kept.map_eq]
  simp only [ownMembers, List.map_cons, List.map_append, Json.map_merged_member, Slot.merged_toJson]
  rfl

end Attribute

namespace Loop

/-- The members of a loop's JSON form that the loop declares. -/
def ownMembers (l : Loop) : Members :=
  ("__exps", l.slot.toJson) :: (Json.member "index" .str l.index
    ++ (Json.member "item" .str l.item ++ Json.member "key" .str l.key))

theorem toJson_eq (l : Loop) : l.toJson = .obj (l.ownMembers ++ l.extra) := by
  rw [toJson, ownMembers]
  simp only [List.cons_append, List.append_assoc]

theorem keys_ownMembers (l : Loop) : (l.ownMembers.map Prod.fst).Sublist declared := by
  simp only [ownMembers, List.map_cons, List.map_append]
  refine List.Sublist.cons_cons "__exps" ?_
  refine (Json.keys_member_sublist "index" ..).append ?_
  exact (Json.keys_member_sublist "item" ..).append (Json.keys_member_sublist "key" ..)

/-- The JSON form of a loop repeats no member. -/
theorem merged_toJson {l : Loop} (kept : l.extra.KeptBy declared) : l.toJson.merged = l.toJson := by
  have once := kept.nodup_keys l.keys_ownMembers (by decide) (List.Subset.refl _)
  rw [toJson_eq, Json.merged_obj once, List.map_append, kept.map_eq]
  simp only [ownMembers, List.map_cons, List.map_append, Json.map_merged_member, Slot.merged_toJson]
  rfl

end Loop

namespace Node

/-- The JSON form of a condition. -/
def conditionJson (c : Condition Node) : Json :=
  .obj [("isExpression", .bool c.isExpression), ("target", targetJson c.target),
    ("expression", Json.orNull Script.Expr.toJson c.expression)]

theorem conditionJsons_eq_map (conditions : List (Condition Node)) :
    conditionJsons conditions = conditions.map conditionJson := by
  refine eq_map_of_cons rfl (fun c rest => ?_) conditions
  obtain ⟨isExpression, target, expression⟩ := c
  rw [conditionJsons, conditionJson]

theorem toJsons_eq_map (nodes : List Node) : toJsons nodes = nodes.map toJson := by
  exact eq_map_of_cons rfl (fun n rest => by rw [toJsons]) nodes

/-- The members of a node's JSON form that the node declares. -/
def ownMembers (n : Node) : Members :=
  ("type", n.kind.toJson) :: (Json.member "tag" .str n.tag ++ (Json.member "text" .str n.text
    ++ (Json.member "attrsList" (fun as => .arr (as.map Attribute.toJson)) n.attributes
    ++ (Json.member "__exps" Slot.toJson n.slot
    ++ (Json.member "ifConditions" (fun cs => .arr (conditionJsons cs)) n.conditions
    ++ (Json.member "for" Loop.toJson n.loop
    ++ Json.member "children" (fun nodes => .arr (nodes.map toJson)) n.children))))))

theorem toJson_eq (n : Node) : n.toJson = .obj (n.ownMembers ++ n.extra) := by
  obtain ⟨kind, tag, text, attributes, slot, conditions, loop, children, extra⟩ := n
  have below : childrenMember children =
      Json.member "children" (fun nodes => .arr (nodes.map toJson)) children := by
    cases children with
    | none => rfl
    | some nodes => rw [childrenMember, toJsons_eq_map, Json.member]
  have branches : conditionsMember conditions =
      Json.member "ifConditions" (fun cs => .arr (conditionJsons cs)) conditions := by
    cases conditions <;> rfl
  rw [toJson, below, branches, ownMembers]
  simp only [List.cons_append, List.append_assoc]

theorem keys_ownMembers (n : Node) : (n.ownMembers.map Prod.fst).Sublist declared := by
  simp only [ownMembers, List.map_cons, List.map_append]
  refine List.Sublist.cons_cons "type" ?_
  refine (Json.keys_member_sublist "tag" ..).append ((Json.keys_member_sublist "text" ..).append ?_)
  refine (Json.keys_member_sublist "attrsList" ..).append ?_
  refine (Json.keys_member_sublist "__exps" ..).append ?_
  refine (Json.keys_member_sublist "ifConditions" ..).append ?_
  exact (Json.keys_member_sublist "for" ..).append (Json.keys_member_sublist "children" ..)

theorem values_tag (n : Node) : Members.values n.ownMembers "tag" = (n.tag.map Json.str).toList := by
  simp [ownMembers]

theorem values_text (n : Node) : Members.values n.ownMembers "text" = (n.text.map Json.str).toList := by
  simp [ownMembers]

theorem values_kind (n : Node) : Members.values n.ownMembers "type" = [n.kind.toJson] := by
  simp [ownMembers]

theorem values_slot (n : Node) : Members.values n.ownMembers "__exps" = (n.slot.map Slot.toJson).toList := by
  simp [ownMembers]

theorem values_conditions (n : Node) : Members.values n.ownMembers "ifConditions" =
    (n.conditions.map fun cs => Json.arr (cs.map conditionJson)).toList := by
  simp only [← conditionJsons_eq_map]
  simp [ownMembers]

theorem values_attributes (n : Node) : Members.values n.ownMembers "attrsList" =
    (n.attributes.map fun as => Json.arr (as.map Attribute.toJson)).toList := by
  simp [ownMembers]

theorem values_loop (n : Node) : Members.values n.ownMembers "for" = (n.loop.map Loop.toJson).toList := by
  simp [ownMembers]

theorem values_children (n : Node) : Members.values n.ownMembers "children" =
    (n.children.map fun nodes => Json.arr (nodes.map toJson)).toList := by
  simp [ownMembers]

/-- The JSON form of a node repeats no member of the node itself. -/
theorem nodup_keys {n : Node} {names : List String} (kept : n.extra.KeptBy names)
    (known : declared ⊆ names) : ((n.ownMembers ++ n.extra).map Prod.fst).Nodup :=
  kept.nodup_keys n.keys_ownMembers (by decide) known

end Node

end Tree

end MiniTemplate
