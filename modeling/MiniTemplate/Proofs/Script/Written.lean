import MiniTemplate.Proofs.Json.Merged
import MiniTemplate.Script.ExprJson

/-!
# Expression trees that are written and read back

A tree has a JSON form that repeats no member, and reading that gives the tree back, but
for numbers that are not finite: these have no JSON form and come back as `null`. So what
is read back, `Expr.written`, has the same JSON form as the tree.
-/

namespace MiniTemplate

namespace Json

theorem depth_le_depthItems {v : Json} {items : List Json} (member : v ∈ items) :
    v.depth ≤ depthItems items := by
  induction items with
  | nil => cases member
  | cons w items ih =>
    rw [depthItems]
    rcases List.mem_cons.1 member with rfl | member
    · exact Nat.le_max_left ..
    · exact Nat.le_trans (ih member) (Nat.le_max_right ..)

theorem depth_le_depthMembers {m : String × Json} {ms : Members} (member : m ∈ ms) :
    m.2.depth ≤ depthMembers ms := by
  induction ms with
  | nil => cases member
  | cons n ms ih =>
    obtain ⟨k, v⟩ := n
    rw [depthMembers]
    rcases List.mem_cons.1 member with rfl | member
    · exact Nat.le_max_left ..
    · exact Nat.le_trans (ih member) (Nat.le_max_right ..)

theorem mapM_string?_map_str (texts : List String) :
    (texts.map Json.str).mapM string? = some texts := by
  induction texts with
  | nil => rfl
  | cons text texts ih =>
    rw [List.map_cons, List.mapM_cons, ih]
    rfl

end Json

namespace Script

open Json (Members)

/-! ## What is read back -/

/-- What a literal is read back as. -/
def Literal.written : Literal → Literal
  | .number x => if x.isInfinite then .null else .number x
  | other => other

mutual

/-- **What a tree is read back as.** -/
def Expr.written : Expr → Expr
  | .identifier name => .identifier name
  | .literal value => .literal value.written
  | .template quasis expressions => .template quasis (writtenAll expressions)
  | .array elements => .array (writtenElements elements)
  | .object properties => .object (writtenProperties properties)
  | .member object property computed optional =>
    .member object.written property.written computed optional
  | .call callee arguments optional => .call callee.written (writtenAll arguments) optional
  | .unary operator argument => .unary operator argument.written
  | .binary operator left right => .binary operator left.written right.written
  | .logical operator left right => .logical operator left.written right.written
  | .conditional test consequent alternate =>
    .conditional test.written consequent.written alternate.written
  | .sequence expressions => .sequence (writtenAll expressions)
  | .spread argument => .spread argument.written

/-- What several trees are read back as. -/
def writtenAll : List Expr → List Expr
  | [] => []
  | e :: rest => e.written :: writtenAll rest

/-- What an array's elements are read back as. -/
def writtenElements : List (Option Expr) → List (Option Expr)
  | [] => []
  | none :: rest => none :: writtenElements rest
  | some e :: rest => some e.written :: writtenElements rest

/-- What an object's members are read back as. -/
def writtenProperties : List (Property Expr) → List (Property Expr)
  | [] => []
  | .pair key value computed :: rest =>
    .pair key.written value.written computed :: writtenProperties rest
  | .spread argument :: rest => .spread argument.written :: writtenProperties rest

end

theorem Literal.toJson_written (l : Literal) : l.written.toJson = l.toJson := by
  cases l with
  | number x => by_cases infinite : x.isInfinite <;> simp [written, toJson, infinite]
  | bool b => rfl
  | string s => rfl
  | null => rfl

theorem Literal.ofJson?_toJson (l : Literal) : Literal.ofJson? l.toJson = some l.written := by
  cases l with
  | number x => by_cases infinite : x.isInfinite <;> simp [written, toJson, ofJson?, infinite]
  | bool b => rfl
  | string s => rfl
  | null => rfl

theorem Literal.merged_toJson (l : Literal) : l.toJson.merged = l.toJson := by
  cases l with
  | number x => by_cases infinite : x.isInfinite <;> simp [toJson, infinite, Json.merged]
  | bool b => rfl
  | string s => rfl
  | null => rfl

mutual

theorem Expr.toJson_written : ∀ e : Expr, e.written.toJson = e.toJson
  | .identifier _ => rfl
  | .literal value => by rw [Expr.written, Expr.toJson, Expr.toJson, value.toJson_written]
  | .template _ expressions => by rw [Expr.written, Expr.toJson, Expr.toJson, toJsons_writtenAll expressions]
  | .array elements => by rw [Expr.written, Expr.toJson, Expr.toJson, elementJsons_writtenElements elements]
  | .object properties => by
    rw [Expr.written, Expr.toJson, Expr.toJson, propertyJsons_writtenProperties properties]
  | .member object property _ _ => by
    rw [Expr.written, Expr.toJson, Expr.toJson, object.toJson_written, property.toJson_written]
  | .call callee arguments _ => by
    rw [Expr.written, Expr.toJson, Expr.toJson, callee.toJson_written, toJsons_writtenAll arguments]
  | .unary _ argument => by rw [Expr.written, Expr.toJson, Expr.toJson, argument.toJson_written]
  | .binary _ left right => by
    rw [Expr.written, Expr.toJson, Expr.toJson, left.toJson_written, right.toJson_written]
  | .logical _ left right => by
    rw [Expr.written, Expr.toJson, Expr.toJson, left.toJson_written, right.toJson_written]
  | .conditional test consequent alternate => by
    rw [Expr.written, Expr.toJson, Expr.toJson, test.toJson_written, consequent.toJson_written,
      alternate.toJson_written]
  | .sequence expressions => by rw [Expr.written, Expr.toJson, Expr.toJson, toJsons_writtenAll expressions]
  | .spread argument => by rw [Expr.written, Expr.toJson, Expr.toJson, argument.toJson_written]

theorem toJsons_writtenAll : ∀ es : List Expr, toJsons (writtenAll es) = toJsons es
  | [] => rfl
  | e :: rest => by rw [writtenAll, toJsons, toJsons, e.toJson_written, toJsons_writtenAll rest]

theorem elementJsons_writtenElements :
    ∀ es : List (Option Expr), elementJsons (writtenElements es) = elementJsons es
  | [] => rfl
  | none :: rest => by
    rw [writtenElements, elementJsons, elementJsons, elementJsons_writtenElements rest]
  | some e :: rest => by
    rw [writtenElements, elementJsons, elementJsons, e.toJson_written,
      elementJsons_writtenElements rest]

theorem propertyJsons_writtenProperties :
    ∀ ps : List (Property Expr), propertyJsons (writtenProperties ps) = propertyJsons ps
  | [] => rfl
  | .pair key value _ :: rest => by
    rw [writtenProperties, propertyJsons, propertyJsons, key.toJson_written, value.toJson_written,
      propertyJsons_writtenProperties rest]
  | .spread argument :: rest => by
    rw [writtenProperties, propertyJsons, propertyJsons, argument.toJson_written,
      propertyJsons_writtenProperties rest]

end

/-! ## No member repeats -/

theorem merged_tagged {variant : String} {ms : Members} (once : ("type" :: ms.map Prod.fst).Nodup)
    (merged : ms.map (fun m => (m.1, m.2.merged)) = ms) : (tagged variant ms).merged = tagged variant ms := by
  rw [tagged, Json.merged_obj (by simpa using once), List.map_cons, merged]
  rfl

mutual

/-- **The JSON form of a tree repeats no member.** -/
theorem Expr.merged_toJson : ∀ e : Expr, e.toJson.merged = e.toJson
  | .identifier _ => merged_tagged (by simp) rfl
  | .literal value => merged_tagged (by simp) (by simp [value.merged_toJson])
  | .template quasis expressions => by
    have strings : (quasis.map Json.str).map Json.merged = quasis.map Json.str := by
      rw [List.map_map]
      rfl
    refine merged_tagged (by simp) ?_
    simp [Json.merged, mergedItems_toJsons expressions, Json.mergedItems_eq_map, strings]
  | .array elements => merged_tagged (by simp) (by simp [Json.merged, mergedItems_elementJsons elements])
  | .object properties =>
    merged_tagged (by simp) (by simp [Json.merged, mergedItems_propertyJsons properties])
  | .member object property _ _ =>
    merged_tagged (by simp) (by simp [Json.merged, object.merged_toJson, property.merged_toJson])
  | .call callee arguments _ =>
    merged_tagged (by simp) (by simp [Json.merged, callee.merged_toJson, mergedItems_toJsons arguments])
  | .unary _ argument => merged_tagged (by simp) (by simp [Json.merged, argument.merged_toJson])
  | .binary _ left right =>
    merged_tagged (by simp) (by simp [Json.merged, left.merged_toJson, right.merged_toJson])
  | .logical _ left right =>
    merged_tagged (by simp) (by simp [Json.merged, left.merged_toJson, right.merged_toJson])
  | .conditional test consequent alternate => by
    refine merged_tagged (by simp) ?_
    simp [test.merged_toJson, consequent.merged_toJson, alternate.merged_toJson]
  | .sequence expressions =>
    merged_tagged (by simp) (by simp [Json.merged, mergedItems_toJsons expressions])
  | .spread argument => merged_tagged (by simp) (by simp [argument.merged_toJson])

theorem mergedItems_toJsons : ∀ es : List Expr, Json.mergedItems (toJsons es) = toJsons es
  | [] => rfl
  | e :: rest => by rw [toJsons, Json.mergedItems, e.merged_toJson, mergedItems_toJsons rest]

theorem mergedItems_elementJsons :
    ∀ es : List (Option Expr), Json.mergedItems (elementJsons es) = elementJsons es
  | [] => rfl
  | none :: rest => by
    rw [elementJsons, Json.mergedItems, mergedItems_elementJsons rest]
    rfl
  | some e :: rest => by
    rw [elementJsons, Json.mergedItems, e.merged_toJson, mergedItems_elementJsons rest]

theorem mergedItems_propertyJsons :
    ∀ ps : List (Property Expr), Json.mergedItems (propertyJsons ps) = propertyJsons ps
  | [] => rfl
  | .pair key value _ :: rest => by
    rw [propertyJsons, Json.mergedItems, mergedItems_propertyJsons rest, merged_tagged (by simp)]
    simp [Json.merged, key.merged_toJson, value.merged_toJson]
  | .spread argument :: rest => by
    rw [propertyJsons, Json.mergedItems, mergedItems_propertyJsons rest, merged_tagged (by simp)]
    simp [argument.merged_toJson]

end

/-! ## Reading back -/

/-- A tree's JSON form is never that of an absent one. -/
theorem nullable?_toJson {α : Type} (read : Json → Option α) (e : Expr) :
    Json.nullable? read e.toJson = (read e.toJson).map some := by
  cases e <;> rfl

theorem variant?_tagged (variants : List (String × List String)) (variant : String) (ms : Members)
    (apart : Members.values ms "type" = []) :
    variant? variants (tagged variant ms) = some (variant, ("type", .str variant) :: ms) := by
  have found : Members.values (("type", Json.str variant) :: ms) "type" = [.str variant] := by
    simp [apart]
  rw [tagged, variant?, Members.required?_of_values _ found]
  rfl

/-- The members of a tagged value are nested less deep than the value. -/
theorem depth_lt_of_mem_tagged {variant : String} {ms : Members} {bound : Nat}
    (deep : (tagged variant ms).depth < bound + 1) : ∀ m ∈ ms, m.2.depth < bound := by
  intro m member
  have within := Json.depth_le_depthMembers (List.mem_cons_of_mem ("type", Json.str variant) member)
  rw [tagged, Json.depth] at deep
  omega

theorem depthItems_lt {items : List Json} {bound : Nat} (deep : (Json.arr items).depth < bound) :
    Json.depthItems items < bound := by
  rw [Json.depth] at deep
  omega

theorem depth_head_lt {v : Json} {items : List Json} {bound : Nat}
    (deep : Json.depthItems (v :: items) < bound) : v.depth < bound ∧ Json.depthItems items < bound := by
  rw [Json.depthItems] at deep
  omega

/-- A tree is read from its members, each nested less deep. -/
theorem Expr.ofJsonWithin?_tagged (bound : Nat) {variant : String} {ms : Members}
    (apart : Members.values ms "type" = []) :
    Expr.ofJsonWithin? (bound + 1) (tagged variant ms) =
      Expr.ofMembers? (Expr.ofJsonWithin? bound) variant (("type", .str variant) :: ms) := by
  rw [Expr.ofJsonWithin?, variant?_tagged _ _ _ apart]
  rfl

mutual

/-- **What is read back from a tree's JSON form**, whatever the bound on its depth. -/
theorem Expr.ofJsonWithin?_toJson : ∀ (e : Expr) (bound : Nat), e.toJson.depth < bound →
    Expr.ofJsonWithin? bound e.toJson = some e.written
  | _, 0, deep => absurd deep (Nat.not_lt_zero _)
  | .identifier name, bound + 1, _ => by
    rw [Expr.toJson, Expr.ofJsonWithin?_tagged bound (by simp)]
    simp [Expr.ofMembers?, Members.required?, Expr.written, Json.string?]
  | .literal value, bound + 1, _ => by
    rw [Expr.toJson, Expr.ofJsonWithin?_tagged bound (by simp)]
    simp [Expr.ofMembers?, Members.required?, Expr.written, value.ofJson?_toJson]
  | .template quasis expressions, bound + 1, deep => by
    rw [Expr.toJson] at deep
    have below := depth_lt_of_mem_tagged deep
    have trees := mapM_toJsons expressions bound
      (depthItems_lt (below ("expressions", .arr (toJsons expressions)) (by simp)))
    rw [Expr.toJson, Expr.ofJsonWithin?_tagged bound (by simp)]
    simp [-List.mapM_map, Expr.ofMembers?, Members.required?, Expr.written, Json.list?,
      Json.mapM_string?_map_str, trees]
  | .array elements, bound + 1, deep => by
    rw [Expr.toJson] at deep
    have below := depth_lt_of_mem_tagged deep
    have trees := mapM_elementJsons elements bound
      (depthItems_lt (below ("elements", .arr (elementJsons elements)) (by simp)))
    rw [Expr.toJson, Expr.ofJsonWithin?_tagged bound (by simp)]
    simp [Expr.ofMembers?, Members.required?, Expr.written, Json.list?, trees]
  | .object properties, bound + 1, deep => by
    rw [Expr.toJson] at deep
    have below := depth_lt_of_mem_tagged deep
    have trees := mapM_propertyJsons properties bound
      (depthItems_lt (below ("properties", .arr (propertyJsons properties)) (by simp)))
    rw [Expr.toJson, Expr.ofJsonWithin?_tagged bound (by simp)]
    simp [Expr.ofMembers?, Members.required?, Expr.written, Json.list?, trees]
  | .member object property computed optional, bound + 1, deep => by
    rw [Expr.toJson] at deep
    have below := depth_lt_of_mem_tagged deep
    have first := object.ofJsonWithin?_toJson bound (below ("object", object.toJson) (by simp))
    have second := property.ofJsonWithin?_toJson bound (below ("property", property.toJson) (by simp))
    rw [Expr.toJson, Expr.ofJsonWithin?_tagged bound (by simp)]
    simp [Expr.ofMembers?, Members.required?, Expr.written, Json.bool?, first, second]
  | .call callee arguments optional, bound + 1, deep => by
    rw [Expr.toJson] at deep
    have below := depth_lt_of_mem_tagged deep
    have first := callee.ofJsonWithin?_toJson bound (below ("callee", callee.toJson) (by simp))
    have trees := mapM_toJsons arguments bound
      (depthItems_lt (below ("arguments", .arr (toJsons arguments)) (by simp)))
    rw [Expr.toJson, Expr.ofJsonWithin?_tagged bound (by simp)]
    simp [Expr.ofMembers?, Members.required?, Expr.written, Json.bool?, Json.list?, first, trees]
  | .unary operator argument, bound + 1, deep => by
    rw [Expr.toJson] at deep
    have below := depth_lt_of_mem_tagged deep
    have first := argument.ofJsonWithin?_toJson bound (below ("argument", argument.toJson) (by simp))
    rw [Expr.toJson, Expr.ofJsonWithin?_tagged bound (by simp)]
    simp [Expr.ofMembers?, Members.required?, Expr.written, Json.string?, first]
  | .binary operator left right, bound + 1, deep => by
    rw [Expr.toJson] at deep
    have below := depth_lt_of_mem_tagged deep
    have first := left.ofJsonWithin?_toJson bound (below ("left", left.toJson) (by simp))
    have second := right.ofJsonWithin?_toJson bound (below ("right", right.toJson) (by simp))
    rw [Expr.toJson, Expr.ofJsonWithin?_tagged bound (by simp)]
    simp [Expr.ofMembers?, Members.required?, Expr.written, Json.string?, first, second]
  | .logical operator left right, bound + 1, deep => by
    rw [Expr.toJson] at deep
    have below := depth_lt_of_mem_tagged deep
    have first := left.ofJsonWithin?_toJson bound (below ("left", left.toJson) (by simp))
    have second := right.ofJsonWithin?_toJson bound (below ("right", right.toJson) (by simp))
    rw [Expr.toJson, Expr.ofJsonWithin?_tagged bound (by simp)]
    simp [Expr.ofMembers?, Members.required?, Expr.written, Json.string?, first, second]
  | .conditional test consequent alternate, bound + 1, deep => by
    rw [Expr.toJson] at deep
    have below := depth_lt_of_mem_tagged deep
    have first := test.ofJsonWithin?_toJson bound (below ("test", test.toJson) (by simp))
    have second := consequent.ofJsonWithin?_toJson bound
      (below ("consequent", consequent.toJson) (by simp))
    have third := alternate.ofJsonWithin?_toJson bound
      (below ("alternate", alternate.toJson) (by simp))
    rw [Expr.toJson, Expr.ofJsonWithin?_tagged bound (by simp)]
    simp [Expr.ofMembers?, Members.required?, Expr.written, first, second, third]
  | .sequence expressions, bound + 1, deep => by
    rw [Expr.toJson] at deep
    have below := depth_lt_of_mem_tagged deep
    have trees := mapM_toJsons expressions bound
      (depthItems_lt (below ("expressions", .arr (toJsons expressions)) (by simp)))
    rw [Expr.toJson, Expr.ofJsonWithin?_tagged bound (by simp)]
    simp [Expr.ofMembers?, Members.required?, Expr.written, Json.list?, trees]
  | .spread argument, bound + 1, deep => by
    rw [Expr.toJson] at deep
    have below := depth_lt_of_mem_tagged deep
    have first := argument.ofJsonWithin?_toJson bound (below ("argument", argument.toJson) (by simp))
    rw [Expr.toJson, Expr.ofJsonWithin?_tagged bound (by simp)]
    simp [Expr.ofMembers?, Members.required?, Expr.written, first]

theorem mapM_toJsons : ∀ (es : List Expr) (bound : Nat), Json.depthItems (toJsons es) < bound →
    (toJsons es).mapM (Expr.ofJsonWithin? bound) = some (writtenAll es)
  | [], _, _ => rfl
  | e :: rest, bound, deep => by
    obtain ⟨head, tail⟩ := depth_head_lt deep
    rw [toJsons, List.mapM_cons, e.ofJsonWithin?_toJson bound head, mapM_toJsons rest bound tail]
    rfl

theorem mapM_elementJsons : ∀ (es : List (Option Expr)) (bound : Nat),
    Json.depthItems (elementJsons es) < bound →
    (elementJsons es).mapM (Json.nullable? (Expr.ofJsonWithin? bound)) = some (writtenElements es)
  | [], _, _ => rfl
  | none :: rest, bound, deep => by
    obtain ⟨-, tail⟩ := depth_head_lt deep
    rw [elementJsons, List.mapM_cons, mapM_elementJsons rest bound tail]
    rfl
  | some e :: rest, bound, deep => by
    obtain ⟨head, tail⟩ := depth_head_lt deep
    rw [elementJsons, List.mapM_cons, nullable?_toJson, e.ofJsonWithin?_toJson bound head,
      mapM_elementJsons rest bound tail]
    rfl

theorem mapM_propertyJsons : ∀ (ps : List (Property Expr)) (bound : Nat),
    Json.depthItems (propertyJsons ps) < bound →
    (propertyJsons ps).mapM (Property.ofJson? (Expr.ofJsonWithin? bound)) =
      some (writtenProperties ps)
  | [], _, _ => rfl
  | .pair key value computed :: rest, bound, deep => by
    obtain ⟨head, tail⟩ := depth_head_lt deep
    have below := depth_lt_of_mem_tagged (Nat.lt_succ_of_lt head)
    have first := key.ofJsonWithin?_toJson bound (below ("key", key.toJson) (by simp))
    have second := value.ofJsonWithin?_toJson bound (below ("value", value.toJson) (by simp))
    rw [propertyJsons, List.mapM_cons, Property.ofJson?, variant?_tagged _ _ _ (by simp),
      mapM_propertyJsons rest bound tail]
    simp [Members.required?, writtenProperties, Json.bool?, first, second]
  | .spread argument :: rest, bound, deep => by
    obtain ⟨head, tail⟩ := depth_head_lt deep
    have below := depth_lt_of_mem_tagged (Nat.lt_succ_of_lt head)
    have first := argument.ofJsonWithin?_toJson bound (below ("argument", argument.toJson) (by simp))
    rw [propertyJsons, List.mapM_cons, Property.ofJson?, variant?_tagged _ _ _ (by simp),
      mapM_propertyJsons rest bound tail]
    simp [Members.required?, writtenProperties, first]

end

theorem Expr.ofJson?_toJson (e : Expr) : Expr.ofJson? e.toJson = some e.written :=
  e.ofJsonWithin?_toJson _ (Nat.lt_succ_self _)

theorem list?_toJsons (es : List Expr) :
    Json.list? Expr.ofJson? (.arr (toJsons es)) = some (writtenAll es) := by
  rw [Json.list?]
  induction es with
  | nil => rfl
  | cons e es ih =>
    rw [toJsons, List.mapM_cons, e.ofJson?_toJson, ih]
    rfl

theorem list?_elementJsons (es : List (Option Expr)) :
    Json.list? (Json.nullable? Expr.ofJson?) (.arr (elementJsons es)) = some (writtenElements es) := by
  rw [Json.list?]
  induction es with
  | nil => rfl
  | cons e es ih =>
    cases e with
    | none =>
      rw [elementJsons, List.mapM_cons, ih]
      rfl
    | some e =>
      rw [elementJsons, List.mapM_cons, nullable?_toJson, e.ofJson?_toJson, ih]
      rfl

end Script

end MiniTemplate
