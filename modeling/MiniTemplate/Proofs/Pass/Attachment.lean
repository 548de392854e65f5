import MiniTemplate.Pass.Chain

/-!
# Which branch belongs to which chain

Attachment as a relation between places among siblings: a branch is attached to the
start of a chain before it if there is nothing but passable siblings in between. The
pass finds this out on its way, with one flag, `reachAfter`; `joins_cons_succ` says
that the flag knows all that matters about the siblings before.
-/

namespace MiniTemplate.Pass

open Markup (Node)

/-! ## Places among siblings -/

/-- Whether a node starts a chain. -/
def opensChain (n : Node) : Bool :=
  !n.isPlaceholder && match Role.of n with
    | .start _ => true
    | _ => false

/-- Whether a node is a branch. -/
def isBranch (n : Node) : Bool :=
  !n.isPlaceholder && match Role.of n with
    | .branch _ => true
    | _ => false

/-- Whether a chain goes on past a node: a placeholder, a branch, or text that has no
role of its own. -/
def isPassable (n : Node) : Bool :=
  n.isPlaceholder || match Role.of n with
    | .start _ => false
    | .branch _ => true
    | .none => n.isText

/-- A node starts a chain iff it has an `if`, which takes precedence of its other directives. -/
theorem role_eq_start_iff {n : Node} {source : String} :
    Role.of n = .start source ↔ ∃ guard, n.ifGuard = some guard ∧ guard.source = source := by
  unfold Role.of
  cases n.ifGuard with
  | some guard => simp
  | none =>
    cases n.elseIfGuard with
    | some guard => simp
    | none => cases n.isElse <;> simp

theorem kind_of_placeholder {n : Node} (placeholder : n.isPlaceholder = true) :
    opensChain n = false ∧ isBranch n = false ∧ isPassable n = true := by
  simp [opensChain, isBranch, isPassable, placeholder]

theorem kind_of_start {n : Node} {source : String} (present : n.isPlaceholder = false)
    (role : Role.of n = .start source) :
    opensChain n = true ∧ isBranch n = false ∧ isPassable n = false := by
  simp [opensChain, isBranch, isPassable, present, role]

theorem kind_of_branch {n : Node} {source : Option String} (present : n.isPlaceholder = false)
    (role : Role.of n = .branch source) :
    opensChain n = false ∧ isBranch n = true ∧ isPassable n = true := by
  simp [opensChain, isBranch, isPassable, present, role]

theorem kind_of_none {n : Node} (present : n.isPlaceholder = false) (role : Role.of n = .none) :
    opensChain n = false ∧ isBranch n = false ∧ isPassable n = n.isText := by
  simp [opensChain, isBranch, isPassable, present, role]

/-- **The branch at place `i` is attached to the start of a chain at place `j`.** -/
def AttachedTo (siblings : List Node) (j i : Nat) : Prop :=
  j < i ∧ siblings[j]?.any opensChain = true ∧ siblings[i]?.any isBranch = true ∧
    ∀ k < i, j < k → siblings[k]?.all isPassable = true

instance (siblings : List Node) (j i : Nat) : Decidable (AttachedTo siblings j i) :=
  inferInstanceAs (Decidable (_ ∧ _ ∧ _ ∧ ∀ k < i, _))

/-- The node at a place is attached to some chain. -/
def Attached (siblings : List Node) (i : Nat) : Prop := ∃ j < i, AttachedTo siblings j i

instance (siblings : List Node) (i : Nat) : Decidable (Attached siblings i) :=
  inferInstanceAs (Decidable (∃ j < i, _))

/-- The places of the branches of a chain, in order. -/
def branchPlaces (siblings : List Node) (j : Nat) : List Nat :=
  (List.range siblings.length).filter fun i => AttachedTo siblings j i

/-- A node stays among its siblings unless it is a placeholder, dead or attached. -/
def Stays (siblings : List Node) (i : Nat) : Prop :=
  siblings[i]?.any (fun n => !n.isPlaceholder && !isDead n) = true ∧ ¬ Attached siblings i

instance (siblings : List Node) (i : Nat) : Decidable (Stays siblings i) :=
  inferInstanceAs (Decidable (_ ∧ ¬ _))

/-- The places of the nodes that stay, in order. -/
def stayingPlaces (siblings : List Node) : List Nat :=
  (List.range siblings.length).filter fun i => Stays siblings i

theorem stays_of_mem {siblings : List Node} {i : Nat} (member : i ∈ stayingPlaces siblings) :
    Stays siblings i :=
  of_decide_eq_true (List.mem_filter.1 member).2

theorem Stays.present {siblings : List Node} {i : Nat} (stays : Stays siblings i) :
    siblings[i]?.any Node.isPlaceholder = false := by
  have kept := stays.1
  cases found : siblings[i]? with
  | none => rfl
  | some n =>
    simp only [found, Option.any_some, Bool.and_eq_true, Bool.not_eq_true'] at kept
    exact kept.1

/-- **A branch is attached to one chain at most.** -/
theorem AttachedTo.unique {siblings : List Node} {i j k : Nat} (h : AttachedTo siblings j i)
    (h' : AttachedTo siblings k i) : j = k := by
  -- A start of a chain is not passable, so neither of the two lies between the other and the branch.
  have apart : ∀ n : Node, opensChain n = true → isPassable n = false := by
    intro n opens
    unfold opensChain at opens
    unfold isPassable
    cases role : Role.of n with
    | start source => simp_all
    | branch source => simp [role] at opens
    | none => simp [role] at opens
  have last : ∀ {j k : Nat}, AttachedTo siblings j i → AttachedTo siblings k i → ¬ j < k := by
    rintro j k ⟨-, -, -, between⟩ ⟨before, opens, -, -⟩ less
    have passable := between k before less
    cases found : siblings[k]? with
    | none => simp [found] at opens
    | some n =>
      rw [found] at opens passable
      simp only [Option.any_some, Option.all_some] at opens passable
      rw [apart n opens] at passable
      cases passable
  have := last h h'
  have := last h' h
  omega

/-! ## One sibling at a time -/

/-- The node at a place is a branch that reaches back past all siblings before it. -/
def Open (siblings : List Node) (i : Nat) : Prop :=
  siblings[i]?.any isBranch = true ∧ ∀ k < i, siblings[k]?.all isPassable = true

instance (siblings : List Node) (i : Nat) : Decidable (Open siblings i) :=
  inferInstanceAs (Decidable (_ ∧ ∀ k < i, _))

/-- The node at a place is attached, where `reach` says whether there is the start of a
chain further back that an open branch is attached to. -/
def Joins (reach : Bool) (siblings : List Node) (i : Nat) : Prop :=
  (reach = true ∧ Open siblings i) ∨ Attached siblings i

instance (reach : Bool) (siblings : List Node) (i : Nat) : Decidable (Joins reach siblings i) :=
  inferInstanceAs (Decidable (_ ∨ _))

theorem joins_false {siblings : List Node} {i : Nat} : Joins false siblings i ↔ Attached siblings i := by
  simp [Joins]

theorem reachAfter_eq (reach : Bool) (n : Node) :
    reachAfter reach n = (opensChain n || (isPassable n && reach)) := by
  unfold reachAfter opensChain isPassable
  cases n.isPlaceholder with
  | true => simp
  | false =>
    cases Role.of n with
    | start source => simp
    | branch source => simp
    | none => simp

variable {n : Node} {siblings : List Node} {i j : Nat}

theorem open_cons_zero : Open (n :: siblings) 0 ↔ isBranch n = true := by
  simp [Open]

theorem open_cons_succ : Open (n :: siblings) (i + 1) ↔ isPassable n = true ∧ Open siblings i := by
  simp only [Open, List.getElem?_cons_succ]
  constructor
  · rintro ⟨branch, before⟩
    refine ⟨by simpa using before 0 (by omega), branch, fun k less => ?_⟩
    simpa using before (k + 1) (by omega)
  · rintro ⟨passable, branch, before⟩
    refine ⟨branch, fun k less => ?_⟩
    cases k with
    | zero => simpa using passable
    | succ k => simpa using before k (by omega)

theorem attachedTo_cons_succ : AttachedTo (n :: siblings) (j + 1) (i + 1) ↔ AttachedTo siblings j i := by
  simp only [AttachedTo, List.getElem?_cons_succ, Nat.add_lt_add_iff_right]
  refine and_congr_right fun _ => and_congr_right fun _ => and_congr_right fun _ => ⟨?_, ?_⟩
  · intro between k less more
    simpa using between (k + 1) (by omega) (by omega)
  · intro between k less more
    cases k with
    | zero => omega
    | succ k => simpa using between k (by omega) (by omega)

theorem attachedTo_cons_zero :
    AttachedTo (n :: siblings) 0 (i + 1) ↔ opensChain n = true ∧ Open siblings i := by
  simp only [AttachedTo, Open, List.getElem?_cons_succ, List.getElem?_cons_zero, Option.any_some,
    Nat.zero_lt_succ, true_and]
  refine and_congr_right fun _ => and_congr_right fun _ => ⟨?_, ?_⟩
  · intro between k less
    simpa using between (k + 1) (by omega) (by omega)
  · intro before k less more
    cases k with
    | zero => omega
    | succ k => simpa using before k (by omega)

theorem not_attached_zero : ¬ Attached siblings 0 := by
  rintro ⟨j, less, -⟩
  omega

theorem attached_cons_succ :
    Attached (n :: siblings) (i + 1) ↔ (opensChain n = true ∧ Open siblings i) ∨ Attached siblings i := by
  constructor
  · rintro ⟨j, less, h⟩
    cases j with
    | zero => exact Or.inl (attachedTo_cons_zero.1 h)
    | succ j => exact Or.inr ⟨j, by omega, attachedTo_cons_succ.1 h⟩
  · rintro (h | ⟨j, less, h⟩)
    · exact ⟨0, by omega, attachedTo_cons_zero.2 h⟩
    · exact ⟨j + 1, by omega, attachedTo_cons_succ.2 h⟩

theorem joins_cons_zero {reach : Bool} :
    Joins reach (n :: siblings) 0 ↔ reach = true ∧ isBranch n = true := by
  simp only [Joins, not_attached_zero, open_cons_zero, or_false]

/-- **The flag suffices**: what comes after a node depends on the nodes before only
through whether a branch still reaches the start of a chain. -/
theorem joins_cons_succ {reach : Bool} :
    Joins reach (n :: siblings) (i + 1) ↔ Joins (reachAfter reach n) siblings i := by
  simp only [Joins, open_cons_succ, attached_cons_succ, reachAfter_eq, Bool.or_eq_true,
    Bool.and_eq_true]
  constructor
  · rintro (⟨reached, passable, opened⟩ | ⟨opens, opened⟩ | attached)
    · exact Or.inl ⟨Or.inr ⟨passable, reached⟩, opened⟩
    · exact Or.inl ⟨Or.inl opens, opened⟩
    · exact Or.inr attached
  · rintro (⟨opens | ⟨passable, reached⟩, opened⟩ | attached)
    · exact Or.inr (Or.inl ⟨opens, opened⟩)
    · exact Or.inl ⟨reached, passable, opened⟩
    · exact Or.inr (Or.inr attached)

/-! ## Lists of places -/

/-- The places of the branches that reach back past all siblings before them. -/
def openPlaces (siblings : List Node) : List Nat :=
  (List.range siblings.length).filter fun i => Open siblings i

/-- A node stays, where `reach` says whether there is the start of a chain further back. -/
def StaysFrom (reach : Bool) (siblings : List Node) (i : Nat) : Prop :=
  siblings[i]?.any (fun n => !n.isPlaceholder && !isDead n) = true ∧ ¬ Joins reach siblings i

instance (reach : Bool) (siblings : List Node) (i : Nat) : Decidable (StaysFrom reach siblings i) :=
  inferInstanceAs (Decidable (_ ∧ ¬ _))

/-- The places of the nodes that stay, where `reach` says whether there is the start of
a chain further back. -/
def stayingFrom (reach : Bool) (siblings : List Node) : List Nat :=
  (List.range siblings.length).filter fun i => StaysFrom reach siblings i

theorem stayingPlaces_eq (siblings : List Node) : stayingPlaces siblings = stayingFrom false siblings := by
  refine List.filter_congr fun i _ => decide_eq_decide.2 ?_
  simp only [Stays, StaysFrom, joins_false]

/-- The places in a longer list: the first, and those after it moved by one. -/
theorem filter_range_succ (p : Nat → Bool) (count : Nat) :
    (List.range (count + 1)).filter p =
      (if p 0 then [0] else []) ++ ((List.range count).filter fun i => p (i + 1)).map (· + 1) := by
  rw [List.range_succ_eq_map, List.filter_cons, List.filter_map]
  cases p 0 with
  | true => rfl
  | false => rfl

theorem branchPlaces_cons_succ (n : Node) (siblings : List Node) (j : Nat) :
    branchPlaces (n :: siblings) (j + 1) = (branchPlaces siblings j).map (· + 1) := by
  have first : ¬ AttachedTo (n :: siblings) (j + 1) 0 := fun h => by
    have := h.1
    omega
  simp [branchPlaces, filter_range_succ, first, attachedTo_cons_succ]

theorem branchPlaces_cons_zero {n : Node} (opens : opensChain n = true) (siblings : List Node) :
    branchPlaces (n :: siblings) 0 = (openPlaces siblings).map (· + 1) := by
  have first : ¬ AttachedTo (n :: siblings) 0 0 := fun h => by
    have := h.1
    omega
  simp [branchPlaces, openPlaces, filter_range_succ, first, attachedTo_cons_zero, opens]

theorem openPlaces_cons (n : Node) (siblings : List Node) :
    openPlaces (n :: siblings) = (if isBranch n then [0] else []) ++
      if isPassable n then (openPlaces siblings).map (· + 1) else [] := by
  simp only [openPlaces, List.length_cons, filter_range_succ, open_cons_zero, open_cons_succ]
  cases isPassable n with
  | true => simp
  | false => simp

theorem staysFrom_cons_zero {reach : Bool} :
    StaysFrom reach (n :: siblings) 0 ↔
      (!n.isPlaceholder && !isDead n && !(reach && isBranch n)) = true := by
  simp only [StaysFrom, joins_cons_zero, List.getElem?_cons_zero, Option.any_some]
  cases reach with
  | true => simp
  | false => simp

theorem staysFrom_cons_succ {reach : Bool} :
    StaysFrom reach (n :: siblings) (i + 1) ↔ StaysFrom (reachAfter reach n) siblings i := by
  simp only [StaysFrom, joins_cons_succ, List.getElem?_cons_succ]

theorem stayingFrom_cons (reach : Bool) (n : Node) (siblings : List Node) :
    stayingFrom reach (n :: siblings) =
      (if !n.isPlaceholder && !isDead n && !(reach && isBranch n) then [0] else []) ++
        (stayingFrom (reachAfter reach n) siblings).map (· + 1) := by
  simp only [stayingFrom, List.length_cons, filter_range_succ, staysFrom_cons_zero, staysFrom_cons_succ,
    Bool.decide_eq_true]

end MiniTemplate.Pass
