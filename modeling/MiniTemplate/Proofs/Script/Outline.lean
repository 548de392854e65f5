import MiniTemplate.Proofs.Script.Extent

/-!
# What a tree tells of its source

Lowering drops parentheses, trailing commas, the shorthand of members and the marks of optional
chains. `Phrase.bare` drops just these, and two phrases have the same tree iff they are the same
when bare. `Phrase.outline` keeps the marks of chains, and of parentheses those that end a chain
which goes on otherwise. Where there are none of these, the tree tells the outline, and with it
where every chain ends (`parse_tells_outline`); where there are, it does not.
-/

namespace MiniTemplate.Script

namespace Phrase

/-- Whether a phrase is an optional chain in parentheses. -/
def endsChain : Phrase → Bool
  | .parens body => body.isChain || body.endsChain
  | _ => false

/-- A phrase in parentheses, if they are wanted. -/
def fenced (wanted : Bool) (p : Phrase) : Phrase := if wanted then .parens p else p

/-- A phrase as a chain, if it is one. -/
def linked (wanted : Bool) (p : Phrase) : Phrase := if wanted then .chain p else p

mutual

/-- A phrase without parentheses, trailing commas and shorthand. If chains are kept, so are the
parentheses that end one: those around a chain that a member access or a call is put after. -/
@[simp] def stripped (keeps : Bool) : Phrase → Phrase
  | .name text => .name text
  | .literal value => .literal value
  | .template quasis parts => .template quasis (strippedAll keeps parts)
  | .array items _ => .array (strippedItems keeps items) false
  | .object entries _ => .object (strippedEntries keeps entries) false
  | .member base text optional =>
    .member (fenced (keeps && base.endsChain) (base.stripped keeps)) text optional
  | .index base key optional =>
    .index (fenced (keeps && base.endsChain) (base.stripped keeps)) (key.stripped keeps) optional
  | .call callee arguments optional =>
    .call (fenced (keeps && callee.endsChain) (callee.stripped keeps))
      (strippedArguments keeps arguments) optional
  | .chain body => linked keeps (body.stripped keeps)
  | .parens body => body.stripped keeps
  | .unary operator argument => .unary operator (argument.stripped keeps)
  | .binary operator left right => .binary operator (left.stripped keeps) (right.stripped keeps)
  | .logical operator left right => .logical operator (left.stripped keeps) (right.stripped keeps)
  | .conditional test consequent alternate =>
    .conditional (test.stripped keeps) (consequent.stripped keeps) (alternate.stripped keeps)
  | .sequence parts => .sequence (strippedAll keeps parts)
  | .foreign construct => .foreign construct

/-- Several phrases, each stripped. -/
@[simp] def strippedAll (keeps : Bool) : List Phrase → List Phrase
  | [] => []
  | p :: rest => p.stripped keeps :: strippedAll keeps rest

/-- The items of an array, each stripped. -/
@[simp] def strippedItems (keeps : Bool) : List (Item Phrase) → List (Item Phrase)
  | [] => []
  | .hole :: rest => .hole :: strippedItems keeps rest
  | .plain p :: rest => .plain (p.stripped keeps) :: strippedItems keeps rest
  | .spread p :: rest => .spread (p.stripped keeps) :: strippedItems keeps rest

/-- The arguments of a call, each stripped. -/
@[simp] def strippedArguments (keeps : Bool) : List (Argument Phrase) → List (Argument Phrase)
  | [] => []
  | .plain p :: rest => .plain (p.stripped keeps) :: strippedArguments keeps rest
  | .spread p :: rest => .spread (p.stripped keeps) :: strippedArguments keeps rest

/-- A key, stripped. -/
@[simp] def strippedKey (keeps : Bool) : Key Phrase → Key Phrase
  | .computed p => .computed (p.stripped keeps)
  | .name text => .name text
  | .string text => .string text
  | .number value => .number value
  | .bigInteger => .bigInteger

/-- The members of an object, each stripped and written in full. -/
@[simp] def strippedEntries (keeps : Bool) : List (Entry Phrase) → List (Entry Phrase)
  | [] => []
  | .pair key value :: rest =>
    .pair (strippedKey keeps key) (value.stripped keeps) :: strippedEntries keeps rest
  | .shorthand text :: rest | .initialised text :: rest =>
    .pair (.name text) (.name text) :: strippedEntries keeps rest
  | .method key :: rest => .method (strippedKey keeps key) :: strippedEntries keeps rest
  | .accessor key :: rest => .accessor (strippedKey keeps key) :: strippedEntries keeps rest
  | .spread p :: rest => .spread (p.stripped keeps) :: strippedEntries keeps rest

end

/-- **The outline of a phrase**: no parentheses but those that end a chain. -/
def outline (p : Phrase) : Phrase := p.stripped true

/-- **A bare phrase**: no parentheses, and no marks of how far chains extend. -/
def bare (p : Phrase) : Phrase := p.stripped false

/-- What a member access or a call is put after. -/
def base? : Phrase → Option Phrase
  | .member base _ _ | .index base _ _ | .call base _ _ => some base
  | _ => none

/-- **Nowhere in a phrase do parentheses end a chain.** -/
inductive Unbroken : Phrase → Prop where
  | mk {p : Phrase} (base : ∀ b, p.base? = some b → b.endsChain = false)
      (below : ∀ q ∈ p.parts, Unbroken q) : Unbroken p

end Phrase

/-! ## The phrase of a tree -/

namespace Expr

/-- Whether an optional link goes before the end of a tree's outermost accesses and calls. -/
def pending : Expr → Bool
  | .member base _ _ optional => base.pending || optional
  | .call callee _ optional => callee.pending || optional
  | _ => false

/-- The name of a member that is not computed. -/
def label : Expr → String
  | .identifier name => name
  | _ => ""

/-- A tree among the items of an array, with its phrase. -/
def item (e : Expr) (p : Phrase) : Item Phrase :=
  match e with
  | .spread _ => .spread p
  | _ => .plain p

/-- A tree among the arguments of a call, with its phrase. -/
def argument (e : Expr) (p : Phrase) : Argument Phrase :=
  match e with
  | .spread _ => .spread p
  | _ => .plain p

/-- A key that may be computed, with its phrase. -/
def key (computed : Bool) (e : Expr) (p : Phrase) : Key Phrase :=
  match computed, e with
  | false, .identifier name => .name name
  | false, .literal (.string text) => .string text
  | false, .literal (.number value) => .number value
  | _, _ => .computed p

mutual

/-- The phrase of a tree, without the mark of the chain that ends with it. -/
@[simp] def spine (keeps : Bool) : Expr → Phrase
  | .identifier name => .name name
  | .literal value => .literal value
  | .template quasis expressions => .template quasis (phrases keeps expressions)
  | .array elements => .array (items keeps elements) false
  | .object properties => .object (entries keeps properties) false
  | .member base property computed optional =>
    if computed then
      .index (base.spine keeps) (.linked (keeps && property.pending) (property.spine keeps)) optional
    else .member (base.spine keeps) property.label optional
  | .call callee arguments optional =>
    .call (callee.spine keeps) (argumentPhrases keeps arguments) optional
  | .unary operator argument =>
    .unary operator (.linked (keeps && argument.pending) (argument.spine keeps))
  | .binary operator left right =>
    .binary operator (.linked (keeps && left.pending) (left.spine keeps))
      (.linked (keeps && right.pending) (right.spine keeps))
  | .logical operator left right =>
    .logical operator (.linked (keeps && left.pending) (left.spine keeps))
      (.linked (keeps && right.pending) (right.spine keeps))
  | .conditional test consequent alternate =>
    .conditional (.linked (keeps && test.pending) (test.spine keeps))
      (.linked (keeps && consequent.pending) (consequent.spine keeps))
      (.linked (keeps && alternate.pending) (alternate.spine keeps))
  | .sequence expressions => .sequence (phrases keeps expressions)
  | .spread argument => .linked (keeps && argument.pending) (argument.spine keeps)

/-- The phrases of several trees. -/
@[simp] def phrases (keeps : Bool) : List Expr → List Phrase
  | [] => []
  | e :: rest => .linked (keeps && e.pending) (e.spine keeps) :: phrases keeps rest

/-- The items of an array by their trees. -/
@[simp] def items (keeps : Bool) : List (Option Expr) → List (Item Phrase)
  | [] => []
  | none :: rest => .hole :: items keeps rest
  | some e :: rest => e.item (.linked (keeps && e.pending) (e.spine keeps)) :: items keeps rest

/-- The arguments of a call by their trees. -/
@[simp] def argumentPhrases (keeps : Bool) : List Expr → List (Argument Phrase)
  | [] => []
  | e :: rest =>
    e.argument (.linked (keeps && e.pending) (e.spine keeps)) :: argumentPhrases keeps rest

/-- The members of an object by their trees. -/
@[simp] def entries (keeps : Bool) : List (Property Expr) → List (Entry Phrase)
  | [] => []
  | .pair k value computed :: rest =>
    .pair (k.key computed (.linked (keeps && k.pending) (k.spine keeps)))
      (.linked (keeps && value.pending) (value.spine keeps)) :: entries keeps rest
  | .spread e :: rest => .spread (.linked (keeps && e.pending) (e.spine keeps)) :: entries keeps rest

end

/-- The phrase of a tree: if chains are kept, each extends as far as it can. -/
def phrase (keeps : Bool) (e : Expr) : Phrase := .linked (keeps && e.pending) (e.spine keeps)

end Expr

namespace Phrase

theorem bind_ok_iff {α β : Type} {x : Except Construct α} {f : α → Except Construct β} {b : β} :
    (x >>= f) = .ok b ↔ ∃ a, x = .ok a ∧ f a = .ok b := by
  cases x with
  | error construct => simp [bind, Except.bind]
  | ok a => simp [bind, Except.bind]

theorem pure_ok_iff {α : Type} {a b : α} : (pure a : Except Construct α) = .ok b ↔ a = b := by
  simp [pure, Except.pure]

/-- No phrase by itself is a spread. -/
theorem ne_spread_of_lower : ∀ (p : Phrase) {e : Expr}, p.lower = .ok e → ∀ a, e ≠ .spread a
  | .parens body, e, done => ne_spread_of_lower body (by rwa [lower] at done)
  | .chain body, e, done => by
    rw [lower] at done
    split at done
    · exact ne_spread_of_lower body done
    · cases done
  | .name _, _, done | .literal _, _, done => by
    cases done
    simp
  | .foreign _, _, done => by cases done
  | .template _ _, _, done | .array _ _, _, done | .object _ _, _, done | .member _ _ _, _, done
  | .unary _ _, _, done | .sequence _, _, done => by
    simp only [lower, bind_ok_iff, pure_ok_iff] at done
    obtain ⟨_, -, rfl⟩ := done
    simp
  | .index _ _ _, _, done | .call _ _ _, _, done | .binary _ _ _, _, done
  | .logical _ _ _, _, done => by
    simp only [lower, bind_ok_iff, pure_ok_iff] at done
    obtain ⟨_, -, _, -, rfl⟩ := done
    simp
  | .conditional _ _ _, _, done => by
    simp only [lower, bind_ok_iff, pure_ok_iff] at done
    obtain ⟨_, -, _, -, _, -, rfl⟩ := done
    simp

theorem item_of_lower {p : Phrase} {e : Expr} (done : p.lower = .ok e) (q : Phrase) :
    e.item q = .plain q := by
  have apart := ne_spread_of_lower p done
  cases e with
  | spread a => exact (apart a rfl).elim
  | _ => rfl

theorem argument_of_lower {p : Phrase} {e : Expr} (done : p.lower = .ok e) (q : Phrase) :
    e.argument q = .plain q := by
  have apart := ne_spread_of_lower p done
  cases e with
  | spread a => exact (apart a rfl).elim
  | _ => rfl

/-! ## Lists of phrases -/

/-- A phrase that is not the base of an access or a call is what its tree tells when stripped, and
has the same tree then. -/
structure Restated (keeps : Bool) (p : Phrase) : Prop where
  told : ∀ e, p.lower = .ok e → p.stripped keeps = e.phrase keeps
  lowers : ∀ e, p.lower = .ok e → (p.stripped keeps).lower = .ok e

variable {keeps : Bool}

theorem restatedAll {ps : List Phrase} {es : List Expr} (each : ∀ p ∈ ps, p.Restated keeps)
    (done : lowerAll ps = .ok es) :
    strippedAll keeps ps = Expr.phrases keeps es ∧ lowerAll (strippedAll keeps ps) = .ok es := by
  induction ps generalizing es with
  | nil =>
    cases done
    exact ⟨rfl, rfl⟩
  | cons p ps ih =>
    simp only [lowerAll, bind_ok_iff, pure_ok_iff] at done
    obtain ⟨e, first, es, rest, rfl⟩ := done
    obtain ⟨here, later⟩ := List.forall_mem_cons.1 each
    obtain ⟨told, lowers⟩ := ih later rest
    constructor
    · rw [strippedAll, Expr.phrases, here.told e first, told]
      rfl
    · simp only [strippedAll, lowerAll, bind_ok_iff, pure_ok_iff]
      exact ⟨e, here.lowers e first, es, lowers, rfl⟩

theorem restatedItems {items : List (Item Phrase)} {es : List (Option Expr)}
    (each : ∀ i ∈ items, ∀ p ∈ i.phrases, p.Restated keeps) (done : lowerItems items = .ok es) :
    strippedItems keeps items = Expr.items keeps es ∧
      lowerItems (strippedItems keeps items) = .ok es := by
  induction items generalizing es with
  | nil =>
    cases done
    exact ⟨rfl, rfl⟩
  | cons i items ih =>
    obtain ⟨here, later⟩ := List.forall_mem_cons.1 each
    cases i with
    | hole =>
      simp only [lowerItems, bind_ok_iff, pure_ok_iff] at done
      obtain ⟨es, rest, rfl⟩ := done
      obtain ⟨told, lowers⟩ := ih later rest
      constructor
      · rw [strippedItems, Expr.items, told]
      · simp only [strippedItems, lowerItems, bind_ok_iff, pure_ok_iff]
        exact ⟨es, lowers, rfl⟩
    | plain p =>
      simp only [lowerItems, bind_ok_iff, pure_ok_iff] at done
      obtain ⟨e, first, es, rest, rfl⟩ := done
      obtain ⟨told, lowers⟩ := ih later rest
      have phrase := here p (List.mem_singleton_self p)
      constructor
      · rw [strippedItems, Expr.items, item_of_lower first, phrase.told e first, told]
        rfl
      · simp only [strippedItems, lowerItems, bind_ok_iff, pure_ok_iff]
        exact ⟨e, phrase.lowers e first, es, lowers, rfl⟩
    | spread p =>
      simp only [lowerItems, bind_ok_iff, pure_ok_iff] at done
      obtain ⟨e, first, es, rest, rfl⟩ := done
      obtain ⟨told, lowers⟩ := ih later rest
      have phrase := here p (List.mem_singleton_self p)
      constructor
      · rw [strippedItems, Expr.items, phrase.told e first, told]
        simp [Expr.item, Expr.pending, Expr.spine, Expr.phrase, linked]
      · simp only [strippedItems, lowerItems, bind_ok_iff, pure_ok_iff]
        exact ⟨e, phrase.lowers e first, es, lowers, rfl⟩

theorem restatedArguments {arguments : List (Argument Phrase)} {es : List Expr}
    (each : ∀ a ∈ arguments, ∀ p ∈ a.phrases, p.Restated keeps)
    (done : lowerArguments arguments = .ok es) :
    strippedArguments keeps arguments = Expr.argumentPhrases keeps es ∧
      lowerArguments (strippedArguments keeps arguments) = .ok es := by
  induction arguments generalizing es with
  | nil =>
    cases done
    exact ⟨rfl, rfl⟩
  | cons a arguments ih =>
    obtain ⟨here, later⟩ := List.forall_mem_cons.1 each
    cases a with
    | plain p =>
      simp only [lowerArguments, bind_ok_iff, pure_ok_iff] at done
      obtain ⟨e, first, es, rest, rfl⟩ := done
      obtain ⟨told, lowers⟩ := ih later rest
      have phrase := here p (List.mem_singleton_self p)
      constructor
      · rw [strippedArguments, Expr.argumentPhrases, argument_of_lower first, phrase.told e first, told]
        rfl
      · simp only [strippedArguments, lowerArguments, bind_ok_iff, pure_ok_iff]
        exact ⟨e, phrase.lowers e first, es, lowers, rfl⟩
    | spread p =>
      simp only [lowerArguments, bind_ok_iff, pure_ok_iff] at done
      obtain ⟨e, first, es, rest, rfl⟩ := done
      obtain ⟨told, lowers⟩ := ih later rest
      have phrase := here p (List.mem_singleton_self p)
      constructor
      · rw [strippedArguments, Expr.argumentPhrases, phrase.told e first, told]
        simp [Expr.argument, Expr.pending, Expr.spine, Expr.phrase, linked]
      · simp only [strippedArguments, lowerArguments, bind_ok_iff, pure_ok_iff]
        exact ⟨e, phrase.lowers e first, es, lowers, rfl⟩

/-- Whether a key is computed. -/
def isComputed : Key Phrase → Bool
  | .computed _ => true
  | _ => false

theorem restatedKey {k : Key Phrase} {e : Expr} (each : ∀ p ∈ k.phrases, p.Restated keeps)
    (done : lowerKey k = .ok e) :
    strippedKey keeps k = e.key (isComputed k) (e.phrase keeps) ∧
      lowerKey (strippedKey keeps k) = .ok e := by
  cases k with
  | name text =>
    cases done
    exact ⟨rfl, rfl⟩
  | string text =>
    cases done
    exact ⟨rfl, rfl⟩
  | number value =>
    cases done
    exact ⟨rfl, rfl⟩
  | bigInteger => cases done
  | computed p =>
    have phrase := each p (List.mem_singleton_self p)
    constructor
    · rw [strippedKey, phrase.told e done]
      rfl
    · exact phrase.lowers e done

theorem isComputed_strippedKey (k : Key Phrase) : isComputed (strippedKey keeps k) = isComputed k := by
  cases k <;> rfl

theorem lowerEntries_pair_ok_iff {k : Key Phrase} {value : Phrase} {entries : List (Entry Phrase)}
    {ps : List (Property Expr)} :
    lowerEntries (.pair k value :: entries) = .ok ps ↔ ∃ e, lowerKey k = .ok e ∧
      ∃ v, value.lower = .ok v ∧ ∃ rest, lowerEntries entries = .ok rest ∧
        .pair e v (isComputed k) :: rest = ps := by
  simp only [lowerEntries, bind_ok_iff, pure_ok_iff]
  rfl

theorem restatedEntries {entries : List (Entry Phrase)} {ps : List (Property Expr)}
    (each : ∀ e ∈ entries, ∀ p ∈ e.phrases, p.Restated keeps) (done : lowerEntries entries = .ok ps) :
    strippedEntries keeps entries = Expr.entries keeps ps ∧
      lowerEntries (strippedEntries keeps entries) = .ok ps := by
  induction entries generalizing ps with
  | nil =>
    cases done
    exact ⟨rfl, rfl⟩
  | cons entry entries ih =>
    obtain ⟨here, later⟩ := List.forall_mem_cons.1 each
    cases entry with
    | pair k value =>
      obtain ⟨e, inKey, v, inValue, ps, rest, rfl⟩ := lowerEntries_pair_ok_iff.1 done
      obtain ⟨told, lowers⟩ := ih later rest
      obtain ⟨keyTold, keyLowers⟩ :=
        restatedKey (fun p member => here p (List.mem_append_left _ member)) inKey
      have phrase := here value (List.mem_append_right _ (List.mem_singleton_self value))
      constructor
      · rw [strippedEntries, Expr.entries, keyTold, phrase.told v inValue, told]
        rfl
      · rw [strippedEntries, lowerEntries_pair_ok_iff, isComputed_strippedKey]
        exact ⟨e, keyLowers, v, phrase.lowers v inValue, ps, lowers, rfl⟩
    -- Written in full, a shorthand has the same tree; its key and its value are names, so no chain
    -- ends there.
    | shorthand text | initialised text =>
      simp only [lowerEntries, bind_ok_iff, pure_ok_iff] at done
      obtain ⟨ps, rest, rfl⟩ := done
      obtain ⟨told, lowers⟩ := ih later rest
      constructor
      · rw [strippedEntries, Expr.entries, told]
        simp [Expr.key, Expr.pending, Expr.spine, linked]
      · rw [strippedEntries, lowerEntries_pair_ok_iff]
        exact ⟨_, rfl, _, rfl, ps, lowers, rfl⟩
    | method k => cases done
    | accessor k =>
      simp only [lowerEntries, bind_ok_iff] at done
      obtain ⟨_, -, failed⟩ := done
      cases failed
    | spread p =>
      simp only [lowerEntries, bind_ok_iff, pure_ok_iff] at done
      obtain ⟨e, first, ps, rest, rfl⟩ := done
      obtain ⟨told, lowers⟩ := ih later rest
      have phrase := here p (List.mem_singleton_self p)
      constructor
      · rw [strippedEntries, Expr.entries, phrase.told e first, told]
        rfl
      · simp only [strippedEntries, lowerEntries, bind_ok_iff, pure_ok_iff]
        exact ⟨e, phrase.lowers e first, ps, lowers, rfl⟩

/-! ## Phrases -/

/-- What the tree of a phrase tells of it, both where the phrase ends and where an access or a call
goes on. -/
structure Told (keeps : Bool) (p : Phrase) (pending : Bool) : Prop where
  lowers : ∀ e, p.lower = .ok e → (p.stripped keeps).lower = .ok e
  closed : pending = false → ∀ e, p.lower = .ok e → p.stripped keeps = e.phrase keeps
  ongoing : p.isChain = false → (keeps = true → p.endsChain = false) →
    ∀ e, p.lower = .ok e → p.stripped keeps = e.spine keeps ∧ (keeps = true → e.pending = pending)

theorem Told.restated {p : Phrase} (told : p.Told keeps false) : p.Restated keeps :=
  ⟨told.closed rfl, told.lowers⟩

theorem phrase_of_not_pending {e : Expr} (ended : keeps = true → e.pending = false) :
    e.phrase keeps = e.spine keeps := by
  have none : (keeps && e.pending) = false := by
    cases keeps with
    | false => rfl
    | true => exact ended rfl
  rw [Expr.phrase, none]
  rfl

/-- A phrase that neither is a chain nor stands in parentheses. -/
theorem Told.of_spine {p : Phrase} {pending : Bool}
    (each : ∀ e, p.lower = .ok e → (p.stripped keeps).lower = .ok e ∧
      p.stripped keeps = e.spine keeps ∧ (keeps = true → e.pending = pending)) :
    p.Told keeps pending where
  lowers e done := (each e done).1
  closed ended e done := by
    obtain ⟨-, same, tells⟩ := each e done
    rw [same, phrase_of_not_pending]
    intro kept
    rw [tells kept, ended]
  ongoing _ _ e done := (each e done).2

theorem lower_fenced (wanted : Bool) (p : Phrase) : (fenced wanted p).lower = p.lower := by
  cases wanted with
  | false => rfl
  | true => rw [fenced, if_pos rfl, lower]

/-- What an access or a call is put after, if it is no chain in parentheses. -/
theorem Told.base {p : Phrase} {pending : Bool} (told : p.Told keeps pending) (apart : p.isChain = false)
    (whole : keeps = true → p.endsChain = false) {e : Expr} (done : p.lower = .ok e) :
    (fenced (keeps && p.endsChain) (p.stripped keeps)).lower = .ok e ∧
      fenced (keeps && p.endsChain) (p.stripped keeps) = e.spine keeps ∧
      (keeps = true → e.pending = pending) := by
  have plain : (keeps && p.endsChain) = false := by
    cases keeps with
    | false => rfl
    | true => exact whole rfl
  refine ⟨?_, ?_, (told.ongoing apart whole e done).2⟩
  · rw [lower_fenced]
    exact told.lowers e done
  · rw [plain]
    exact (told.ongoing apart whole e done).1

theorem unbroken_iff {p : Phrase} :
    p.Unbroken ↔ (∀ b, p.base? = some b → b.endsChain = false) ∧ ∀ q ∈ p.parts, q.Unbroken :=
  ⟨fun (.mk base below) => ⟨base, below⟩, fun ⟨base, below⟩ => .mk base below⟩

theorem Unbroken.base {p b : Phrase} (unbroken : p.Unbroken) (base : p.base? = some b) :
    b.endsChain = false :=
  (unbroken_iff.1 unbroken).1 b base

theorem Unbroken.part {p q : Phrase} (unbroken : p.Unbroken) (part : q ∈ p.parts) : q.Unbroken :=
  (unbroken_iff.1 unbroken).2 q part

theorem told_parens {body : Phrase} (inside : body.Told keeps false) : (parens body).Told keeps false where
  lowers := inside.lowers
  closed := inside.closed
  ongoing _ whole e done := by
    cases keeps with
    | false => exact ⟨inside.closed rfl e done, fun kept => by cases kept⟩
    | true =>
      have apart : body.isChain = false ∧ body.endsChain = false := by
        simpa [endsChain] using whole rfl
      exact inside.ongoing apart.1 (fun _ => apart.2) e done

theorem told_chain {body : Phrase} (inside : body.Told keeps true) : (chain body).Told keeps false := by
  have link {e : Expr} (done : (chain body).lower = .ok e) : body.isLink = true ∧ body.lower = .ok e := by
    rw [lower] at done
    split at done
    · exact ⟨by assumption, done⟩
    · cases done
  have apart (isLink : body.isLink = true) : body.isChain = false ∧ body.endsChain = false ∧
      (body.stripped keeps).isLink = true := by
    cases body with
    | member | index | call => simp [isChain, endsChain, stripped, Phrase.isLink]
    | _ => cases isLink
  refine ⟨?_, ?_, ?_⟩
  · intro e done
    obtain ⟨isLink, below⟩ := link done
    have lowers := inside.lowers e below
    cases keeps with
    | false => exact lowers
    | true =>
      rw [stripped, linked, if_pos rfl, lower, if_pos (apart isLink).2.2]
      exact lowers
  · intro _ e done
    obtain ⟨isLink, below⟩ := link done
    obtain ⟨noChain, whole, -⟩ := apart isLink
    obtain ⟨same, tells⟩ := inside.ongoing noChain (fun _ => whole) e below
    rw [stripped, same, Expr.phrase]
    cases keeps with
    | false => rfl
    | true => rw [tells rfl, Bool.and_self]
  · intro noChain
    cases noChain

theorem told_member {base : Phrase} {pending : Bool} (text : String) (optional : Bool)
    (before : base.Told keeps pending) (apart : base.isChain = false)
    (whole : keeps = true → base.endsChain = false) :
    (member base text optional).Told keeps (pending || optional) := by
  apply Told.of_spine
  intro e done
  simp only [lower, bind_ok_iff, pure_ok_iff] at done
  obtain ⟨o, inBase, rfl⟩ := done
  obtain ⟨lowers, same, tells⟩ := before.base apart whole inBase
  refine ⟨?_, ?_, ?_⟩
  · simp only [stripped, lower, bind_ok_iff, pure_ok_iff]
    exact ⟨o, lowers, rfl⟩
  · rw [stripped, same, Expr.spine]
    rfl
  · intro kept
    rw [Expr.pending, tells kept]

theorem told_index {base key : Phrase} {pending : Bool} (optional : Bool)
    (before : base.Told keeps pending) (apart : base.isChain = false)
    (whole : keeps = true → base.endsChain = false) (inside : key.Restated keeps) :
    (index base key optional).Told keeps (pending || optional) := by
  apply Told.of_spine
  intro e done
  simp only [lower, bind_ok_iff, pure_ok_iff] at done
  obtain ⟨o, inBase, k, inKey, rfl⟩ := done
  obtain ⟨lowers, same, tells⟩ := before.base apart whole inBase
  refine ⟨?_, ?_, ?_⟩
  · simp only [stripped, lower, bind_ok_iff, pure_ok_iff]
    exact ⟨o, lowers, k, inside.lowers k inKey, rfl⟩
  · rw [stripped, same, inside.told k inKey, Expr.spine]
    rfl
  · intro kept
    rw [Expr.pending, tells kept]

theorem told_call {callee : Phrase} {arguments : List (Argument Phrase)} {pending : Bool}
    (optional : Bool) (before : callee.Told keeps pending) (apart : callee.isChain = false)
    (whole : keeps = true → callee.endsChain = false)
    (inside : ∀ a ∈ arguments, ∀ p ∈ a.phrases, p.Restated keeps) :
    (call callee arguments optional).Told keeps (pending || optional) := by
  apply Told.of_spine
  intro e done
  simp only [lower, bind_ok_iff, pure_ok_iff] at done
  obtain ⟨as, inArguments, f, inCallee, rfl⟩ := done
  obtain ⟨lowers, same, tells⟩ := before.base apart whole inCallee
  obtain ⟨told, argumentsLower⟩ := restatedArguments inside inArguments
  refine ⟨?_, ?_, ?_⟩
  · simp only [stripped, lower, bind_ok_iff, pure_ok_iff]
    exact ⟨as, argumentsLower, f, lowers, rfl⟩
  · rw [stripped, same, told, Expr.spine]
  · intro kept
    rw [Expr.pending, tells kept]

/-- A phrase that neither goes on nor is a chain or in parentheses, by the phrases right below. -/
theorem told_plain {p : Phrase} (link : p.isLink = false) (noChain : p.isChain = false)
    (noParens : ∀ body, p ≠ .parens body) (each : ∀ q ∈ p.parts, q.Restated keeps) :
    p.Told keeps false := by
  apply Told.of_spine
  intro e done
  cases p with
  | name text | literal value =>
    cases done
    exact ⟨rfl, rfl, fun _ => rfl⟩
  | foreign construct => cases done
  | member | index | call => cases link
  | chain => cases noChain
  | parens body => exact (noParens body rfl).elim
  -- From here on each part is a phrase of its own, and no chain goes on from it into the whole.
  | template quasis parts =>
    have inParts : ∀ q ∈ parts, q.Restated keeps := each
    simp only [lower, bind_ok_iff, pure_ok_iff] at done
    obtain ⟨es, inside, rfl⟩ := done
    obtain ⟨told, lowers⟩ := restatedAll inParts inside
    refine ⟨?_, ?_, fun _ => rfl⟩
    · simp only [stripped, lower, bind_ok_iff, pure_ok_iff]
      exact ⟨es, lowers, rfl⟩
    · rw [stripped, told, Expr.spine]
  | sequence parts =>
    have inParts : ∀ q ∈ parts, q.Restated keeps := each
    simp only [lower, bind_ok_iff, pure_ok_iff] at done
    obtain ⟨es, inside, rfl⟩ := done
    obtain ⟨told, lowers⟩ := restatedAll inParts inside
    refine ⟨?_, ?_, fun _ => rfl⟩
    · simp only [stripped, lower, bind_ok_iff, pure_ok_iff]
      exact ⟨es, lowers, rfl⟩
    · rw [stripped, told, Expr.spine]
  | array items comma =>
    simp only [lower, bind_ok_iff, pure_ok_iff] at done
    obtain ⟨es, inside, rfl⟩ := done
    obtain ⟨told, lowers⟩ := restatedItems (fun i member q below =>
      each q (List.mem_flatMap.2 ⟨i, member, below⟩)) inside
    refine ⟨?_, ?_, fun _ => rfl⟩
    · simp only [stripped, lower, bind_ok_iff, pure_ok_iff]
      exact ⟨es, lowers, rfl⟩
    · rw [stripped, told, Expr.spine]
  | object entries comma =>
    simp only [lower, bind_ok_iff, pure_ok_iff] at done
    obtain ⟨ps, inside, rfl⟩ := done
    obtain ⟨told, lowers⟩ := restatedEntries (fun e member q below =>
      each q (List.mem_flatMap.2 ⟨e, member, below⟩)) inside
    refine ⟨?_, ?_, fun _ => rfl⟩
    · simp only [stripped, lower, bind_ok_iff, pure_ok_iff]
      exact ⟨ps, lowers, rfl⟩
    · rw [stripped, told, Expr.spine]
  | unary operator argument =>
    simp only [lower, bind_ok_iff, pure_ok_iff] at done
    obtain ⟨a, inside, rfl⟩ := done
    have first := each argument (by simp [parts])
    refine ⟨?_, ?_, fun _ => rfl⟩
    · simp only [stripped, lower, bind_ok_iff, pure_ok_iff]
      exact ⟨a, first.lowers a inside, rfl⟩
    · rw [stripped, first.told a inside, Expr.spine]
      rfl
  | binary operator left right | logical operator left right =>
    simp only [lower, bind_ok_iff, pure_ok_iff] at done
    obtain ⟨l, inLeft, r, inRight, rfl⟩ := done
    have first := each left (by simp [parts])
    have second := each right (by simp [parts])
    refine ⟨?_, ?_, fun _ => rfl⟩
    · simp only [stripped, lower, bind_ok_iff, pure_ok_iff]
      exact ⟨l, first.lowers l inLeft, r, second.lowers r inRight, rfl⟩
    · rw [stripped, first.told l inLeft, second.told r inRight, Expr.spine]
      rfl
  | conditional test consequent alternate =>
    simp only [lower, bind_ok_iff, pure_ok_iff] at done
    obtain ⟨t, inTest, c, inConsequent, a, inAlternate, rfl⟩ := done
    have first := each test (by simp [parts])
    have second := each consequent (by simp [parts])
    have third := each alternate (by simp [parts])
    refine ⟨?_, ?_, fun _ => rfl⟩
    · simp only [stripped, lower, bind_ok_iff, pure_ok_iff]
      exact ⟨t, first.lowers t inTest, c, second.lowers c inConsequent, a,
        third.lowers a inAlternate, rfl⟩
    · rw [stripped, first.told t inTest, second.told c inConsequent, third.told a inAlternate,
        Expr.spine]
      rfl

/-- **What the tree tells of a phrase whose chains are marked**: the bare phrase, and the outline if
parentheses nowhere end a chain. -/
theorem Marked.told {p : Phrase} {pending : Bool} (marked : p.Marked pending)
    (unbroken : keeps = true → p.Unbroken) : p.Told keeps pending := by
  induction marked with
  | @plain p link noChain below ih =>
    have each : ∀ q ∈ p.parts, q.Told keeps false := by
      intro q part
      exact ih q part fun kept => (unbroken kept).part part
    by_cases inParens : ∃ body, p = .parens body
    · obtain ⟨body, rfl⟩ := inParens
      exact told_parens (each body (List.mem_singleton_self body))
    · exact told_plain link noChain (fun body same => inParens ⟨body, same⟩)
        fun q part => (each q part).restated
  | foreign construct pending =>
    apply Told.of_spine
    intro e done
    cases done
  | chain _ ih => exact told_chain (ih fun kept => (unbroken kept).part (by simp [parts]))
  | member text optional _ apart ih =>
    exact told_member text optional (ih fun kept => (unbroken kept).part (by simp [parts])) apart
      fun kept => (unbroken kept).base rfl
  | index optional _ apart _ ih inside =>
    refine told_index optional (ih fun kept => (unbroken kept).part (by simp [parts])) apart
      (fun kept => (unbroken kept).base rfl) (Told.restated (inside fun kept => ?_))
    exact (unbroken kept).part (by simp [parts])
  | call optional _ apart _ ih inside =>
    refine told_call optional (ih fun kept => (unbroken kept).part (by simp [parts])) apart
      (fun kept => (unbroken kept).base rfl) fun a member q below => ?_
    refine Told.restated (inside a member q below fun kept => (unbroken kept).part ?_)
    exact List.mem_cons_of_mem _ (List.mem_flatMap.2 ⟨a, member, below⟩)

/-- Two phrases whose chains are marked have the same tree iff they are the same when stripped. -/
theorem lower_eq_iff {p q : Phrase} {e f : Expr} (markedP : p.Marked false) (markedQ : q.Marked false)
    (unbrokenP : keeps = true → p.Unbroken) (unbrokenQ : keeps = true → q.Unbroken)
    (lowerP : p.lower = .ok e) (lowerQ : q.lower = .ok f) :
    e = f ↔ p.stripped keeps = q.stripped keeps := by
  have toldP := (markedP.told unbrokenP).restated
  have toldQ := (markedQ.told unbrokenQ).restated
  constructor
  · rintro rfl
    rw [toldP.told e lowerP, toldQ.told e lowerQ]
  · intro same
    have treeP := toldP.lowers e lowerP
    rw [same, toldQ.lowers f lowerQ, Except.ok.injEq] at treeP
    exact treeP.symm

end Phrase

/-! ## Texts -/

theorem parse_ok_iff {text : String} {e : Expr} :
    parse text = .ok e ↔ ∃ p, phrase? text.toList = some p ∧ p.lower = .ok e := by
  rw [parse]
  cases phrase? text.toList with
  | none => simp
  | some p =>
    show p.lower.mapError ParseError.unsupported = .ok e ↔ _
    constructor
    · intro done
      cases lowered : p.lower with
      | error construct =>
        rw [lowered] at done
        cases done
      | ok f =>
        rw [lowered] at done
        cases done
        exact ⟨p, rfl, lowered⟩
    · rintro ⟨q, same, lowered⟩
      cases same
      rw [lowered]
      rfl

/-- Whether two phrases are names with the same member accesses, chains and parentheses. -/
def Phrase.sameLinks : Phrase → Phrase → Bool
  | .name s, .name t => s == t
  | .member p s inP, .member q t inQ => p.sameLinks q && s == t && inP == inQ
  | .chain p, .chain q | .parens p, .parens q => p.sameLinks q
  | _, _ => false

theorem Phrase.eq_of_sameLinks {p q : Phrase} (same : p.sameLinks q = true) : p = q := by
  fun_induction Phrase.sameLinks p q with
  | case1 s t => rw [beq_iff_eq.1 same]
  | case2 p s inP q t inQ ih =>
    simp only [Bool.and_eq_true, beq_iff_eq] at same
    rw [ih same.1.1, same.1.2, same.2]
  | case3 p q ih | case4 p q ih => rw [ih same]
  | case5 => cases same

theorem phrase?_of_sameLinks {text : List Char} {p : Phrase}
    (shown : (phrase? text).any p.sameLinks = true) : phrase? text = some p := by
  obtain ⟨q, read, same⟩ := (Option.any_eq_true _ _).1 shown
  rw [read, Phrase.eq_of_sameLinks same]

/-- A chain that goes on through two accesses. -/
def wholeChain : Phrase := .chain (.member (.member (.name "a") "b" true) "c" false)

/-- The same chain in parentheses, which end nothing. -/
def wrappedChain : Phrase :=
  .parens (.chain (.member (.member (.parens (.name "a")) "b" true) "c" false))

/-- A chain that parentheses end before the second access. -/
def endedChain : Phrase := .member (.parens (.chain (.member (.name "a") "b" true))) "c" false

theorem phrase?_wholeChain : phrase? "a?.b.c".toList = some wholeChain :=
  phrase?_of_sameLinks (by decide +kernel)

theorem phrase?_wrappedChain : phrase? "((a)?.b.c)".toList = some wrappedChain :=
  phrase?_of_sameLinks (by decide +kernel)

theorem phrase?_endedChain : phrase? "(a?.b).c".toList = some endedChain :=
  phrase?_of_sameLinks (by decide +kernel)

/-- The tree of all three. -/
def chainTree : Expr :=
  .member (.member (.identifier "a") (.identifier "b") false true) (.identifier "c") false false

end MiniTemplate.Script
