import Mathlib.Data.List.Infix
import MiniTemplate.Proofs.Pass.Origin

/-!
# Names that belong to one dialect

A name is a stem, a mark and a suffix, and nothing in it shows where the stem stops: stems are any
texts, and suffixes hold dashes of their own, so that `wx:for-index` could be of the stem `wx` or,
with a dash for the mark, of the stem `wx:for`. What tells is how a name ends. No mark with a suffix
is the end of another one (`Style.ending_of_suffix`), because no suffix is a word that follows a dash
within a suffix. So a name has one reading (`Spelling.eq_of_name_eq`), and the main result,
`directives_told_apart`, follows: a run for one spelling drops no directive of any other.
-/

namespace MiniTemplate

/-! ## How names end -/

namespace Directive

theorem find?_suffix (d : Directive) : all.find? (fun e => e.suffix == d.suffix) = some d := by
  cases d <;> decide

theorem suffix_injective : Function.Injective suffix := by
  intro d e same
  have found := find?_suffix d
  rw [same, find?_suffix e] at found
  exact (Option.some.inj found).symm

/-- The words that follow a dash within a suffix. -/
def innerWords : List String := ["index", "item", "prop", "event", "value-path", "path", "filter"]

theorem suffix_not_mem_innerWords (d : Directive) : d.suffix ∉ innerWords := by
  cases d <;> decide

/-- A mark within a suffix is a dash, and an inner word follows it. -/
theorem mem_innerWords_of_suffix {a : Style} {e : Directive} {word : String}
    (inside : a.mark.toList ++ word.toList <:+ e.suffix.toList) : word ∈ innerWords := by
  -- the marks are looked for at every place, also the colon, which no suffix holds
  have ends : ∀ rest ∈ e.suffix.toList.tails, rest.head?.any (fun c => c == ':' || c == '-') = true →
      String.ofList rest.tail ∈ innerWords := by
    cases e <;> decide
  have here := ends _ ((List.mem_tails _ _).2 inside)
  cases a with
  | namespaced => simpa [Style.mark] using here
  | dashed => simpa [Style.mark] using here

end Directive

namespace Style

/-- What follows the stem in a name. -/
def ending (a : Style) (d : Directive) : List Char := a.mark.toList ++ d.suffix.toList

theorem mark_injective : Function.Injective mark := by
  intro a b same
  cases a <;> cases b <;> simp_all [mark]

theorem ending_injective {a b : Style} {d e : Directive} (same : a.ending d = b.ending e) :
    a = b ∧ d = e := by
  have lengths : a.mark.toList.length = b.mark.toList.length := by cases a <;> cases b <;> rfl
  obtain ⟨marks, suffixes⟩ := List.append_inj same lengths
  exact ⟨mark_injective (String.toList_inj.1 marks),
    Directive.suffix_injective (String.toList_inj.1 suffixes)⟩

theorem ending_eq_cons (a : Style) : ∃ c, ∀ d, a.ending d = c :: d.suffix.toList := by
  cases a with
  | namespaced => exact ⟨':', fun d => rfl⟩
  | dashed => exact ⟨'-', fun d => rfl⟩

/-- **No ending is the end of another one.** Either the two marks stand at the same place, or one
stands within the other's suffix, where no suffix can follow it. -/
theorem ending_of_suffix {a b : Style} {d e : Directive} (ends : a.ending d <:+ b.ending e) :
    a = b ∧ d = e := by
  obtain ⟨c, cons⟩ := b.ending_eq_cons
  rw [cons, List.suffix_cons_iff] at ends
  rcases ends with same | inside
  · rw [← cons] at same
    exact ending_injective same
  · exact absurd (Directive.mem_innerWords_of_suffix inside) d.suffix_not_mem_innerWords

end Style

/-! ## How names are read -/

namespace Spelling

theorem eq_iff {s t : Spelling} : s = t ↔ s.style = t.style ∧ s.stem = t.stem := by
  cases s
  cases t
  exact iff_of_eq (mk.injEq ..)

theorem toList_name (s : Spelling) (d : Directive) :
    (s.name d).toList = s.stem.toList ++ s.style.ending d := by
  rw [name, String.toList_append, String.toList_append, List.append_assoc, Style.ending]

/-- **A name has one reading**: it determines the style, the stem and the directive. -/
theorem eq_of_name_eq {s t : Spelling} {d e : Directive} (same : s.name d = t.name e) :
    s = t ∧ d = e := by
  have lists : s.stem.toList ++ s.style.ending d = t.stem.toList ++ t.style.ending e := by
    rw [← toList_name, same, toList_name]
  -- both endings end the same text, so one of them is the end of the other
  have styles : s.style = t.style ∧ d = e := by
    have left := List.suffix_append s.stem.toList (s.style.ending d)
    rw [lists] at left
    rcases List.suffix_or_suffix_of_suffix left (List.suffix_append _ _) with ends | ends
    · exact Style.ending_of_suffix ends
    · obtain ⟨styles, directives⟩ := Style.ending_of_suffix ends
      exact ⟨styles.symm, directives.symm⟩
  obtain ⟨style, rfl⟩ := styles
  rw [style] at lists
  have stem := String.toList_inj.1 (List.append_cancel_right lists)
  exact ⟨eq_iff.2 ⟨style, stem⟩, rfl⟩

theorem name_injective (s : Spelling) : Function.Injective s.name :=
  fun _ _ same => (eq_of_name_eq same).2

theorem names_nodup (s : Spelling) : s.names.Nodup :=
  List.Nodup.map s.name_injective (by decide)

theorem isDirective_iff_mem_names {s : Spelling} {label : String} :
    s.isDirective label = true ↔ label ∈ s.names := by
  simp [isDirective, Dialect.isDirective, names]

theorem isDirective_iff_name {s : Spelling} {label : String} :
    s.isDirective label = true ↔ ∃ d, s.name d = label := by
  rw [← isDirective_dialect, Pass.isDirective_iff]
  exact exists_congr fun d => eq_comm

/-- Two spellings that take one label for a directive are the same. -/
theorem eq_of_isDirective {s t : Spelling} {label : String} (left : s.isDirective label = true)
    (right : t.isDirective label = true) : s = t := by
  obtain ⟨d, rfl⟩ := isDirective_iff_name.1 left
  obtain ⟨e, same⟩ := isDirective_iff_name.1 right
  exact (eq_of_name_eq same).1.symm

end Spelling

/-! ## Attributes of another spelling -/

namespace Pass

open Markup (Attribute Node)

variable {f : Frontend} {s t : Spelling}

/-- **The directives of a spelling stay**: one by one and in order, each with all that an attribute
keeps. -/
def StayAs (f : Frontend) (t : Spelling) (as : List Attribute) (bs : List Tree.Attribute) : Prop :=
  List.Forall₂ (Exchanged f) (as.filter fun a => t.isDirective a.name)
    (bs.filter fun b => t.isDirective b.name)

theorem filter_isDirective_of_ne (other : s ≠ t) (as : List Attribute) :
    (as.filter fun a => !s.isDirective a.name).filter (fun a => t.isDirective a.name) =
      as.filter fun a => t.isDirective a.name := by
  rw [List.filter_filter]
  refine List.filter_congr fun a _ => ?_
  cases right : t.isDirective a.name with
  | false => rfl
  | true =>
    cases left : s.isDirective a.name with
    | false => rfl
    | true => exact absurd (Spelling.eq_of_isDirective left right) other

/-- **The step**: what one node's attributes lose is no directive of another spelling. -/
theorem stayAs_of_simplifyAttributes (other : s ≠ t) {as : List Attribute}
    {out : Option (List Tree.Attribute)} (done : (simplifyAttributes f s as).result = .ok out) :
    StayAs f t as (out.getD []) := by
  have each : List.Forall₂ (Exchanged f) (as.filter fun a => !s.isDirective a.name) (out.getD []) :=
    exchanged_of_simplifyAttributes done
  have alike : ∀ ⦃a b⦄, Exchanged f a b →
      (t.isDirective a.name = true ↔ t.isDirective b.name = true) := by
    intro a b exchanged
    rw [exchanged.name]
  have stay := List.rel_filter (p := fun a : Attribute => t.isDirective a.name)
    (q := fun b : Tree.Attribute => t.isDirective b.name) alike each
  rw [filter_isDirective_of_ne other] at stay
  exact stay

/-- **Directives are told apart by their names alone.** The names of a spelling are distinct, and two
spellings share one only if they are the same; a name that is a directive's has one style, stem and
directive; and a run for one spelling keeps the directives of any other at every node. -/
theorem directives_told_apart (s t : Spelling) :
    (s.names.length = 16 ∧ s.names.Nodup) ∧
    ((∃ label, label ∈ s.names ∧ label ∈ t.names) ↔ s.style = t.style ∧ s.stem = t.stem) ∧
    (∀ label, s.isDirective label = true →
      (∃ d, ∀ (r : Spelling) e, r.name e = label ↔ r = s ∧ e = d) ∧
        ∀ r : Spelling, r.isDirective label = true ↔ r = s) ∧
    (¬ (s.style = t.style ∧ s.stem = t.stem) → ∀ f : Frontend,
      (∀ as out, (simplifyAttributes f s as).result = .ok out → StayAs f t as (out.getD [])) ∧
        ∀ root u, (simplifyRoot f s root).result = .ok u →
          ∀ n v, ComesFrom root u n v → StayAs f t n.attributeList v.attributeList) := by
  rw [← Spelling.eq_iff]
  refine ⟨⟨rfl, s.names_nodup⟩, ⟨?_, ?_⟩, fun label directive => ⟨?_, fun r => ⟨?_, ?_⟩⟩, ?_⟩
  · rintro ⟨label, left, right⟩
    exact Spelling.eq_of_isDirective (Spelling.isDirective_iff_mem_names.2 left)
      (Spelling.isDirective_iff_mem_names.2 right)
  · rintro rfl
    have here : s.name .start ∈ s.names := List.mem_map_of_mem (by decide)
    exact ⟨s.name .start, here, here⟩
  · obtain ⟨d, rfl⟩ := Spelling.isDirective_iff_name.1 directive
    refine ⟨d, fun r e => ⟨Spelling.eq_of_name_eq, ?_⟩⟩
    rintro ⟨rfl, rfl⟩
    rfl
  · exact fun also => Spelling.eq_of_isDirective also directive
  · rintro rfl
    exact directive
  · intro other f
    refine ⟨fun as out done => stayAs_of_simplifyAttributes other done, ?_⟩
    intro root u done n v comes
    have node := (became_of_comesFrom done comes).simplified
    exact stayAs_of_simplifyAttributes other node.attributes

/-- Directives of `wx` and, with dashes, of the stem `wx:for`, which a name of the former starts
with. -/
def crowdedNode : Node :=
  { Node.element "view" with
    attributes := some
      [{ name := "wx:for-index", value := some "i" },
       { name := "wx:for-if", value := some "\x7b\x7ba\x7d\x7d" },
       { name := "wx:for", value := some "rows" },
       { name := "wx:for-for-index", value := some "j" }] }

/-- Only the names of the stem `wx:for` stay, though all names start like the former ones. -/
theorem crowdedNode_told_apart :
    Mode.wx.spelling.isDirective "wx:for-index" = true ∧
      (⟨.dashed, "wx:for"⟩ : Spelling).isDirective "wx:for-index" = false ∧
      ∃ u, (simplifyRoot .standard Mode.wx.spelling crowdedNode).result = .ok u ∧
        u.attributeList.map (fun b => b.name) = ["wx:for-if", "wx:for-for-index"] ∧
        StayAs .standard ⟨.dashed, "wx:for"⟩ crowdedNode.attributeList u.attributeList := by
  obtain ⟨-, -, readings, stay⟩ := directives_told_apart Mode.wx.spelling ⟨.dashed, "wx:for"⟩
  have directive : Mode.wx.spelling.isDirective "wx:for-index" = true := by decide +kernel
  have run : (simplifyRoot .standard Mode.wx.spelling crowdedNode).result.toOption.any (fun u =>
      u.attributeList.map (fun b => b.name) == ["wx:for-if", "wx:for-for-index"]) = true := by
    decide +kernel
  obtain ⟨u, done, names⟩ := (Option.any_eq_true _ _).1 run
  have done := ok_of_toOption done
  refine ⟨directive, ?_, u, done, eq_of_beq names, ?_⟩
  · rw [Bool.eq_false_iff, ne_eq, (readings _ directive).2]
    decide
  · exact (stay (by decide) .standard).2 crowdedNode u done _ _ .root

end Pass

end MiniTemplate
