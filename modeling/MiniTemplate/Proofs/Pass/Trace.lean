import MiniTemplate.Pass.Simplify

/-!
# Traces that succeed

A trace has a result only if every part of it has one. `Trace.bind_ok_iff` takes a
trace apart at a step, and each question of the front end says what a result of it
means for the parser and the detector.
-/

namespace MiniTemplate.Pass

open Script (Expr)

theorem ok_of_toOption {ε α : Type} {x : Except ε α} {a : α} (some : x.toOption = some a) :
    x = .ok a := by
  cases x with
  | error e => cases some
  | ok b =>
    cases some
    rfl

namespace Trace

variable {α β : Type}

@[simp] theorem pure_result (a : α) : (Pure.pure a : Trace α).result = .ok a := rfl

/-- A sequence has a result iff its first part has one and the second has one there. -/
theorem bind_ok_iff {t : Trace α} {next : α → Trace β} {b : β} :
    (t >>= next).result = .ok b ↔ ∃ a, t.result = .ok a ∧ (next a).result = .ok b := by
  obtain ⟨calls, result⟩ := t
  cases result with
  | ok a => simp [Bind.bind, Trace.bind]
  | error e => simp [Bind.bind, Trace.bind]

/-- A sequence depends on its second part only where the first has a result. -/
theorem bind_congr {t : Trace α} {next other : α → Trace β}
    (same : ∀ a, t.result = .ok a → next a = other a) : t >>= next = t >>= other := by
  obtain ⟨calls, result⟩ := t
  cases result with
  | ok a => simp only [Bind.bind, Trace.bind, same a rfl]
  | error e => rfl

theorem bind_nested {γ : Type} (t : Trace α) (next : α → Trace β) (last : β → Trace γ) :
    (t >>= next) >>= last = t >>= fun a => next a >>= last := by
  obtain ⟨calls, result⟩ := t
  cases result with
  | ok a =>
    simp only [Bind.bind, Trace.bind]
    cases (next a).result with
    | ok b => simp
    | error e => rfl
  | error e => rfl

theorem map_id (t : Trace α) : id <$> t = t := by
  obtain ⟨calls, result⟩ := t
  cases result with
  | ok a => simp [Functor.map, Trace.bind, Trace.pure]
  | error e => rfl

instance : LawfulMonad Trace :=
  LawfulMonad.mk' Trace map_id (fun _ _ => rfl) bind_nested

end Trace

namespace Frontend

variable {f : Frontend}

@[simp] theorem parse_result (source : String) : (f.parse source).result = f.parser source := rfl

@[simp] theorem detect_result (raw : String) : (f.detect raw).result = .ok (f.detector raw) := rfl

/-- The tree of a source, if the source is an expression. -/
def tree? (f : Frontend) (source : String) : Option Expr := (f.parser source).toOption

/-- The tree that a text stands for, if the text holds an expression. -/
def boundTree? (f : Frontend) (raw : String) : Option Expr :=
  if (f.detector raw).hasBinding then f.tree? (f.detector raw).normalized else none

theorem tree?_eq_some_iff {source : String} {e : Expr} :
    f.tree? source = some e ↔ f.parser source = .ok e := by
  unfold tree?
  cases f.parser source with
  | ok tree => simp [Except.toOption]
  | error e => simp [Except.toOption]

/-- From a text that holds an expression its tree is extracted, and nothing from any other. -/
theorem extract_ok_iff {raw : String} {e : Option Expr} :
    (f.extract raw).result = .ok e ↔
      ((f.detector raw).hasBinding = false ∧ e = none) ∨
        ∃ tree, (f.detector raw).hasBinding = true ∧
          f.parser (f.detector raw).normalized = .ok tree ∧ e = some tree := by
  simp only [extract, Trace.bind_ok_iff, detect_result, Except.ok.injEq, exists_eq_left']
  cases (f.detector raw).hasBinding with
  | true =>
    simp only [if_true, Trace.bind_ok_iff, parse_result, Trace.pure_result, Except.ok.injEq]
    simp [eq_comm]
  | false => simp [eq_comm]

/-- What is extracted from a text is the tree that the text stands for. -/
theorem boundTree?_of_extract {raw : String} {e : Option Expr}
    (extracted : (f.extract raw).result = .ok e) : f.boundTree? raw = e := by
  unfold boundTree?
  rcases extract_ok_iff.1 extracted with ⟨literal, rfl⟩ | ⟨tree, bound, parsed, rfl⟩
  · rw [literal]
    rfl
  · rw [if_pos bound, tree?_eq_some_iff.2 parsed]

/-- The tree of a text that holds an expression. -/
theorem extract_of_parsed {raw : String} {tree : Expr} (bound : (f.detector raw).hasBinding)
    (parsed : f.parser (f.detector raw).normalized = .ok tree) :
    (f.extract raw).result = .ok (some tree) :=
  extract_ok_iff.2 (Or.inr ⟨tree, bound, parsed, rfl⟩)

/-- The trees of an optional source. -/
theorem parseOptional_ok_iff {source : Option String} {e : Option Expr} :
    (f.parseOptional source).result = .ok e ↔
      (source = none ∧ e = none) ∨
        ∃ src tree, source = some src ∧ e = some tree ∧ f.parser src = .ok tree := by
  cases source with
  | none => simp [parseOptional, eq_comm]
  | some src =>
    simp only [parseOptional, Trace.bind_ok_iff, parse_result, Trace.pure_result, Except.ok.injEq]
    constructor
    · rintro ⟨tree, parsed, rfl⟩
      exact Or.inr ⟨src, tree, rfl, rfl, parsed⟩
    · rintro (⟨absent, -⟩ | ⟨_, tree, same, rfl, parsed⟩)
      · cases absent
      · cases same
        exact ⟨tree, parsed, rfl⟩

end Frontend

end MiniTemplate.Pass
