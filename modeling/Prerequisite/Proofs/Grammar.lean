import Prerequisite.Proofs.Postfix
import Prerequisite.Proofs.Tree.Shape

/-!
# The grammar of postfix expressions

The terms that spell an expression are those of its operands from left to right, followed by its
connective.  A list of terms is read with a stack whose depth depends on the kinds of the terms
alone, and so does which conjunctions are skipped.  If every connective finds its operands and one
value is left, then the terms that are not skipped spell exactly one expression, and the tree of the
terms is the tree of that expression.  Otherwise it is the group of the operands.
-/

namespace Prerequisite

namespace Postfix

/-! ### Expressions -/

/-- An expression over terms. -/
inductive Expression where
  | operand (term : Term)
  | not (operand : Expression)
  | and (left right : Expression)
  | or (left right : Expression)

namespace Expression

/-- The operands and connectives that mean themselves. -/
def meaning : Meaning Expression where
  operand := operand
  not := not
  and := and
  or := or

/-- The value of an expression for a meaning of its operands and connectives. -/
def value {α : Type} (m : Meaning α) : Expression → α
  | operand term => m.operand term
  | not e => m.not (e.value m)
  | and left right => m.and (left.value m) (right.value m)
  | or left right => m.or (left.value m) (right.value m)

/-- The connectives of an expression in postfix order. -/
def connectives : Expression → List Connective
  | operand _ => []
  | not e => e.connectives ++ [.not]
  | and left right => left.connectives ++ right.connectives ++ [.and]
  | or left right => left.connectives ++ right.connectives ++ [.or]

@[simp]
theorem value_meaning (e : Expression) :
  e.value meaning = e
  := by
  induction e with
  | operand term => rfl
  | not e ih => exact congrArg not ih
  | and left right hleft hright => exact congrArg₂ and hleft hright
  | or left right hleft hright => exact congrArg₂ or hleft hright

end Expression

/-- The terms spell the expression in postfix order: what spells its operands from left to right,
and then the term that stands for its connective. -/
inductive Spells : List Term → Expression → Prop where
  | operand {term : Term} : term.isOperand → Spells [term] (.operand term)
  | not {terms : List Term} {e : Expression} {sign : Term} :
      Spells terms e → sign.connective? = some .not → Spells (terms ++ [sign]) (.not e)
  | and {lefts rights : List Term} {left right : Expression} {sign : Term} :
      Spells lefts left → Spells rights right → sign.connective? = some .and →
      Spells (lefts ++ rights ++ [sign]) (.and left right)
  | or {lefts rights : List Term} {left right : Expression} {sign : Term} :
      Spells lefts left → Spells rights right → sign.connective? = some .or →
      Spells (lefts ++ rights ++ [sign]) (.or left right)

/-- The terms spell the expressions on a stack, the one on top last. -/
inductive SpellsAll : List Term → List Expression → Prop where
  | nil : SpellsAll [] []
  | cons {terms top : List Term} {stack : List Expression} {e : Expression} :
      SpellsAll terms stack → Spells top e → SpellsAll (terms ++ top) (e :: stack)

theorem SpellsAll.spells {terms : List Term} {e : Expression} (h : SpellsAll terms [e]) :
  Spells terms e
  := by
  cases h with
  | cons hrest htop =>
    cases hrest
    exact htop

theorem Spells.filterMap_connective? {terms : List Term} {e : Expression} (h : Spells terms e) :
  terms.filterMap Term.connective? = e.connectives
  := by
  induction h with
  | operand hterm =>
    have hnone := Option.isNone_iff_eq_none.mp hterm
    simp [Expression.connectives, hnone]
  | not _ hsign ih => simp [Expression.connectives, hsign, ih]
  | and _ _ hsign hleft hright => simp [Expression.connectives, hsign, hleft, hright]
  | or _ _ hsign hleft hright => simp [Expression.connectives, hsign, hleft, hright]

/-- The terms that spell an expression put its value on the stack. -/
theorem Spells.foldlM_step
    {α : Type} (m : Meaning α) {terms : List Term} {e : Expression} (h : Spells terms e)
    (stack : List α) :
  terms.foldlM (step m) stack = some (e.value m :: stack)
  := by
  induction h generalizing stack with
  | operand hterm =>
    have hnone := Option.isNone_iff_eq_none.mp hterm
    simp [step, hnone, Expression.value]
  | not _ hsign ih =>
    rw [List.foldlM_append, ih]
    simp [step, hsign, Expression.value]
  | and _ _ hsign hleft hright =>
    rw [List.foldlM_append, List.foldlM_append, hleft]
    simp [step, hsign, Expression.value, hright]
  | or _ _ hsign hleft hright =>
    rw [List.foldlM_append, List.foldlM_append, hleft]
    simp [step, hsign, Expression.value, hright]

theorem Spells.value?_eq
    {α : Type} (m : Meaning α) {terms : List Term} {e : Expression} (h : Spells terms e) :
  value? m terms = some (e.value m)
  := by
  rw [value?, h.foldlM_step]

/-- A list of terms spells one expression at most. -/
theorem Spells.unique {terms : List Term} {e e' : Expression} (h : Spells terms e)
    (h' : Spells terms e') :
  e = e'
  := by
  have hvalue := h.value?_eq Expression.meaning
  rw [h'.value?_eq Expression.meaning] at hvalue
  simpa using hvalue.symm

/-! ### The depth of the stack -/

/-- The number of values on the stack after a term, if the term finds its operands. A conjunction
that finds fewer than two values is skipped. -/
def depthAfter (depth : Nat) (term : Term) : Option Nat :=
  match term.connective? with
  | none => some (depth + 1)
  | some .not => if 1 ≤ depth then some depth else none
  | some .or => if 2 ≤ depth then some (depth - 1) else none
  | some .and => if 2 ≤ depth then some (depth - 1) else some depth

/-- The number of values that a list of terms leaves, if all of them find their operands. -/
def depth? (terms : List Term) : Option Nat := terms.foldlM depthAfter 0

/-- The terms without the conjunctions that are skipped. -/
def withoutSkipped (depth : Nat) : List Term → List Term
  | [] => []
  | term :: rest =>
    if term.connective? = some .and ∧ depth < 2 then
      withoutSkipped depth rest
    else
      term :: withoutSkipped ((depthAfter depth term).getD depth) rest

theorem withoutSkipped_sublist (depth : Nat) (terms : List Term) :
  (withoutSkipped depth terms).Sublist terms
  := by
  induction terms generalizing depth with
  | nil => exact .slnil
  | cons term rest ih =>
    rw [withoutSkipped]
    split
    · exact (ih depth).cons term
    · exact (ih _).cons_cons term

theorem withoutSkipped_singleton {depth : Nat} {term : Term}
    (h : ¬ (term.connective? = some .and ∧ depth < 2)) :
  withoutSkipped depth [term] = [term]
  := by
  rw [withoutSkipped, if_neg h, withoutSkipped]

theorem withoutSkipped_cons {depth next : Nat} {term : Term}
    (h : depthAfter depth term = some next) (rest : List Term) :
  withoutSkipped depth (term :: rest) = withoutSkipped depth [term] ++ withoutSkipped next rest
  := by
  by_cases hskipped : term.connective? = some .and ∧ depth < 2
  · obtain rfl : depth = next := by
      rw [depthAfter, hskipped.1] at h
      simpa [Nat.not_le.mpr hskipped.2] using h
    simp [withoutSkipped, hskipped]
  · rw [withoutSkipped_singleton hskipped, withoutSkipped, if_neg hskipped, h]
    rfl

theorem map_length_step {α : Type} (m : Meaning α) (stack : List α) (term : Term) :
  (step m stack term).map List.length = depthAfter stack.length term
  := by
  unfold step depthAfter
  rcases term.connective? with _ | _ | _ | _
  · rfl
  · rcases stack with _ | ⟨_, _ | ⟨_, _⟩⟩ <;> simp
  · rcases stack with _ | ⟨_, _ | ⟨_, _⟩⟩ <;> simp
  · rcases stack with _ | ⟨_, _⟩ <;> simp

/-- The depth of the stack does not depend on the values. -/
theorem map_length_foldlM_step {α : Type} (m : Meaning α) (terms : List Term) (stack : List α) :
  (terms.foldlM (step m) stack).map List.length = terms.foldlM depthAfter stack.length
  := by
  induction terms generalizing stack with
  | nil => rfl
  | cons term rest ih =>
    rw [List.foldlM_cons, List.foldlM_cons, ← map_length_step m]
    rcases step m stack term with _ | next
    · rfl
    · exact ih next

/-- A list of terms has a value exactly when it leaves one value. -/
theorem isSome_value?_iff {α : Type} (m : Meaning α) (terms : List Term) :
  (value? m terms).isSome ↔ depth? terms = some 1
  := by
  have hlength := map_length_foldlM_step m terms []
  rw [List.length_nil, ← depth?] at hlength
  rw [← hlength, value?]
  rcases terms.foldlM (step m) [] with _ | _ | ⟨top, _ | ⟨_, _⟩⟩ <;> simp

/-- The terms that are skipped do not matter. -/
theorem foldlM_step_withoutSkipped
    {α : Type} (m : Meaning α) (terms : List Term) (stack : List α) :
  (withoutSkipped stack.length terms).foldlM (step m) stack = terms.foldlM (step m) stack
  := by
  induction terms generalizing stack with
  | nil => rfl
  | cons term rest ih =>
    rw [withoutSkipped, List.foldlM_cons]
    split
    case isTrue hskipped =>
      obtain ⟨hand, hdepth⟩ := hskipped
      have hstep : step m stack term = some stack := by
        rcases stack with _ | ⟨_, _ | ⟨_, _⟩⟩
        · simp [step, hand]
        · simp [step, hand]
        · simp only [List.length_cons] at hdepth
          omega
      rw [hstep]
      exact ih stack
    case isFalse =>
      rw [List.foldlM_cons, ← map_length_step m]
      rcases step m stack term with _ | next
      · rfl
      · exact ih next

/-- The value of a list of terms is that of the expression which the terms that are not skipped
spell. -/
theorem Spells.value?_of_withoutSkipped
    {α : Type} (m : Meaning α) {terms : List Term} {e : Expression}
    (h : Spells (withoutSkipped 0 terms) e) :
  value? m terms = some (e.value m)
  := by
  rw [← h.value?_eq m, value?, value?, ← foldlM_step_withoutSkipped m terms []]
  rfl

/-! ### Reading and spelling -/

/-- One term takes the expressions that are spelled so far to those that are spelled with the term,
unless it is skipped. -/
theorem spellsAll_step
    {read : List Term} {stack stack' : List Expression} {term : Term}
    (h : SpellsAll read stack) (hstep : step Expression.meaning stack term = some stack') :
  SpellsAll (read ++ withoutSkipped stack.length [term]) stack'
  := by
  unfold step at hstep
  rcases hconnective : term.connective? with _ | _ | _ | _
  case none =>
    simp only [hconnective] at hstep
    obtain rfl := Option.some.inj hstep
    rw [withoutSkipped_singleton (by simp [hconnective])]
    apply SpellsAll.cons h
    apply Spells.operand
    simp [Term.isOperand, hconnective]
  case some.and =>
    simp only [hconnective] at hstep
    rcases h with _ | ⟨h, hright⟩
    · obtain rfl := Option.some.inj hstep
      simpa [withoutSkipped, hconnective] using SpellsAll.nil
    rcases h with _ | ⟨h, hleft⟩
    · obtain rfl := Option.some.inj hstep
      simpa [withoutSkipped, hconnective] using SpellsAll.cons .nil hright
    · -- what spells the two topmost expressions and the term now spell one
      obtain rfl := Option.some.inj hstep
      rw [withoutSkipped_singleton (by simp), List.append_assoc, List.append_assoc,
        ← List.append_assoc _ _ [term]]
      exact SpellsAll.cons h (.and hleft hright hconnective)
  case some.or =>
    simp only [hconnective] at hstep
    rw [withoutSkipped_singleton (by simp [hconnective])]
    rcases h with _ | ⟨h, hright⟩
    · cases hstep
    rcases h with _ | ⟨h, hleft⟩
    · cases hstep
    · obtain rfl := Option.some.inj hstep
      rw [List.append_assoc, List.append_assoc, ← List.append_assoc _ _ [term]]
      exact SpellsAll.cons h (.or hleft hright hconnective)
  case some.not =>
    simp only [hconnective] at hstep
    rw [withoutSkipped_singleton (by simp [hconnective])]
    rcases h with _ | ⟨h, hoperand⟩
    · cases hstep
    · obtain rfl := Option.some.inj hstep
      rw [List.append_assoc]
      exact SpellsAll.cons h (.not hoperand hconnective)

/-- The terms that are not skipped spell the expressions on the stack. -/
theorem spellsAll_foldlM_step
    {read terms : List Term} {stack stack' : List Expression} (h : SpellsAll read stack)
    (hrun : terms.foldlM (step Expression.meaning) stack = some stack') :
  SpellsAll (read ++ withoutSkipped stack.length terms) stack'
  := by
  induction terms generalizing read stack with
  | nil =>
    obtain rfl : stack = stack' := Option.some.inj hrun
    simpa [withoutSkipped] using h
  | cons term rest ih =>
    rw [List.foldlM_cons] at hrun
    obtain ⟨next, hstep, hrest⟩ := Option.bind_eq_some_iff.mp hrun
    have hdepth : depthAfter stack.length term = some next.length := by
      rw [← map_length_step Expression.meaning, hstep, Option.map_some]
    rw [withoutSkipped_cons hdepth, ← List.append_assoc]
    exact ih (spellsAll_step h hstep) hrest

/-- If a list of terms has a value, then the terms that are not skipped spell an expression, whose
value it is. -/
theorem exists_spells_of_value?
    {α : Type} {m : Meaning α} {terms : List Term} {value : α} (h : value? m terms = some value) :
  ∃ e, Spells (withoutSkipped 0 terms) e ∧ e.value m = value
  := by
  -- the terms are read as an expression first, whose value is the value that they have
  have hmap : Respects (fun (e : Expression) a => e.value m = a) Expression.meaning m terms := by
    constructor
    · intro term _ _
      rfl
    · rintro e _ rfl
      rfl
    · rintro left _ right _ rfl rfl
      rfl
    · rintro left _ right _ rfl rfl
      rfl
  rw [← value?_map hmap] at h
  obtain ⟨e, he, rfl⟩ := Option.map_eq_some_iff.mp h
  use e
  refine ⟨?_, rfl⟩
  unfold value? at he
  rcases hrun : terms.foldlM (step Expression.meaning) [] with _ | _ | ⟨top, _ | ⟨_, _⟩⟩ <;>
    simp [hrun] at he
  subst he
  apply SpellsAll.spells
  exact spellsAll_foldlM_step .nil hrun

/-- The connectives of the expression that some terms denote are among the terms. -/
theorem mem_connectives_of_spells
    {depth : Nat} {terms : List Term} {e : Expression} (h : Spells (withoutSkipped depth terms) e)
    {connective : Connective} (hmem : connective ∈ e.connectives) :
  ∃ term ∈ terms, term.connective? = some connective
  := by
  rw [← h.filterMap_connective?] at hmem
  obtain ⟨term, hterm, hconnective⟩ := List.mem_filterMap.mp hmem
  use term, (withoutSkipped_sublist depth terms).subset hterm

/-- The connectives of the expression that some criteria denote are among the criteria. -/
theorem exists_kind_of_spells
    {depth : Nat} {names : Names} {criteria : List Criterion} {e : Expression}
    (h : Spells (withoutSkipped depth (terms names criteria)) e)
    {connective : Connective} (hmem : connective ∈ e.connectives) :
  ∃ c ∈ criteria, c.kind = .connective connective
  := by
  obtain ⟨term, hterm, hconnective⟩ := mem_connectives_of_spells h hmem
  obtain ⟨c, hc, rfl⟩ := List.mem_map.mp hterm
  use c, hc
  exact Criterion.connective?_term_eq_some_iff.mp hconnective

end Postfix

namespace Tree

open Postfix

/-! ### The tree of some terms -/

/-- What some terms denote is the group of their operands, or the tree of an expression which the
terms that are not skipped spell. -/
theorem rough_cases (stats : Option Snapshot) (terms : List Term) :
  rough stats terms = groupOf stats terms
    ∨ ∃ e, Spells (withoutSkipped 0 terms) e ∧ rough stats terms = e.value (meaning stats)
  := by
  unfold rough
  split
  · left
    rfl
  · rcases hvalue : value? (meaning stats) terms with _ | t
    · left
      rfl
    · right
      obtain ⟨e, hspells, rfl⟩ := exists_spells_of_value? hvalue
      use e, hspells
      rfl

theorem ofTerms?_of_ne_nil {terms : List Term} (h : terms ≠ []) (stats : Option Snapshot) :
  ofTerms? stats terms = some (rough stats terms).consolidate.finalize
  := by
  rw [ofTerms?, List.isEmpty_eq_false_iff.mpr h]
  rfl

section NotPlain

variable {terms : List Term}

theorem rough_of_value?_eq_none
    (hplain : isPlainConjunction terms = false) {stats : Option Snapshot}
    (hvalue : value? (meaning stats) terms = none) :
  rough stats terms = groupOf stats terms
  := by
  simp [rough, hplain, hvalue]

theorem rough_of_value?_eq_some
    (hplain : isPlainConjunction terms = false) {stats : Option Snapshot} {t : Tree}
    (hvalue : value? (meaning stats) terms = some t) :
  rough stats terms = t
  := by
  simp [rough, hplain, hvalue]

/-- The connectives among terms that plainly are a conjunction are conjunctions. -/
theorem eq_and_of_isPlainConjunction (h : isPlainConjunction terms) {term : Term}
    (hterm : term ∈ terms) {connective : Connective}
    (hconnective : term.connective? = some connective) :
  connective = .and
  := by
  have hmem : connective ∈ terms.filterMap Term.connective? :=
    List.mem_filterMap.mpr ⟨term, hterm, hconnective⟩
  rw [isPlainConjunction, Bool.or_eq_true, Bool.and_eq_true] at h
  obtain hempty | ⟨hall, -⟩ := h
  · rw [List.isEmpty_iff.mp hempty] at hmem
    cases hmem
  · simpa using List.all_eq_true.mp hall connective hmem

/-- A list of terms that spells a disjunction or a negation is not plainly a conjunction. -/
theorem isPlainConjunction_of_spells {e : Expression} (h : Spells terms e)
    (hmem : .or ∈ e.connectives ∨ .not ∈ e.connectives) :
  isPlainConjunction terms = false
  := by
  obtain ⟨connective, hmem, hne⟩ : ∃ connective ∈ e.connectives, connective ≠ .and := by
    obtain hor | hnot := hmem
    · use .or, hor
      simp
    · use .not, hnot
      simp
  rw [← h.filterMap_connective?] at hmem
  obtain ⟨term, hterm, hconnective⟩ := List.mem_filterMap.mp hmem
  apply Bool.eq_false_iff.mpr
  intro hplain
  exact hne (eq_and_of_isPlainConjunction hplain hterm hconnective)

end NotPlain

/-- Let some terms be given that are not plainly a conjunction. If each of their connectives finds
its operands and one value is left, then the terms that are not skipped spell exactly one
expression, and the tree of the terms is that of the expression. Otherwise the tree of the terms is
the group of their operands. In particular, the tree of the terms that spell an expression with a
disjunction or a negation is the tree of that expression. -/
theorem ofTerms?_eq_tree_of_expression (stats : Option Snapshot) :
  (∀ terms : List Term, terms ≠ [] → isPlainConjunction terms = false →
    (depth? terms = some 1 →
      ∃ e, Spells (withoutSkipped 0 terms) e
        ∧ (∀ e', Spells (withoutSkipped 0 terms) e' → e' = e)
        ∧ ofTerms? stats terms = some (e.value (meaning stats)).consolidate.finalize)
    ∧ (depth? terms ≠ some 1 → ofTerms? stats terms = some (groupOf stats terms).finalize))
  ∧ ∀ (terms : List Term) (e : Expression), Spells terms e →
      .or ∈ e.connectives ∨ .not ∈ e.connectives →
      ofTerms? stats terms = some (e.value (meaning stats)).consolidate.finalize
  := by
  constructor
  · intro terms hne hplain
    rw [ofTerms?_of_ne_nil hne]
    constructor
    · intro hdepth
      rw [← isSome_value?_iff (meaning stats), Option.isSome_iff_exists] at hdepth
      obtain ⟨t, hvalue⟩ := hdepth
      obtain ⟨e, hspells, rfl⟩ := exists_spells_of_value? hvalue
      use e, hspells, fun e' hspells' => hspells'.unique hspells
      rw [rough_of_value?_eq_some hplain hvalue]
    · intro hdepth
      rw [ne_eq, ← isSome_value?_iff (meaning stats), Option.not_isSome_iff_eq_none] at hdepth
      rw [rough_of_value?_eq_none hplain hdepth, consolidate_groupOf]
  · intro terms e hspells hmem
    have hplain := isPlainConjunction_of_spells hspells hmem
    have hne : terms ≠ [] := by
      rintro rfl
      simp [isPlainConjunction] at hplain
    rw [ofTerms?_of_ne_nil hne, rough_of_value?_eq_some hplain (hspells.value?_eq _)]

/-- A conjunction is skipped where it finds one value at most, and elsewhere it binds two. A
disjunction that lacks an operand leaves a group. -/
theorem ofTerms?_of_skipped_or_unbalanced :
  let a := Criterion.term .none ⟨0, 1, 0, 1⟩
  let b := Criterion.term .none ⟨1, 2, 0, 2⟩
  let c := Criterion.term .none ⟨2, 3, 0, 3⟩
  let and := Criterion.term .none (.sentinel 3 4)
  let or := Criterion.term .none (.sentinel 4 3)
  let not := Criterion.term .none (.sentinel 5 42)
  ofTerms? none [and, a, and, b, c, or, and, not]
      = some (Tree.not (.all [ofTerm none a, .any [ofTerm none b, ofTerm none c]])).finalize
    ∧ ofTerms? none [a, or, b, c, and]
      = some (group [ofTerm none a, ofTerm none b, ofTerm none c]).finalize
    ∧ ofTerms? none [a, b, or, not]
      = some (Tree.not (.any [ofTerm none a, ofTerm none b])).finalize
  := by
  intro a b c and or not
  refine ⟨?_, ?_, ?_⟩
  · have hplain : isPlainConjunction [and, a, and, b, c, or, and, not] = false := by decide
    have hdepth : depth? [and, a, and, b, c, or, and, not] = some 1 := by decide
    have hspells : Spells ([a] ++ ([b] ++ [c] ++ [or]) ++ [and] ++ [not])
        (.not (.and (.operand a) (.or (.operand b) (.operand c)))) :=
      .not (.and (.operand rfl) (.or (.operand rfl) (.operand rfl) rfl) rfl) rfl
    obtain ⟨e, -, hunique, hbuilt⟩ :=
      ((ofTerms?_eq_tree_of_expression none).1 _ (by simp) hplain).1 hdepth
    rw [hbuilt, ← hunique _ hspells]
    rfl
  · have hplain : isPlainConjunction [a, or, b, c, and] = false := by decide
    have hdepth : depth? [a, or, b, c, and] ≠ some 1 := by decide
    exact ((ofTerms?_eq_tree_of_expression none).1 _ (by simp) hplain).2 hdepth
  · have hspells : Spells ([a] ++ [b] ++ [or] ++ [not]) (.not (.or (.operand a) (.operand b))) :=
      .not (.or (.operand rfl) (.operand rfl) rfl) rfl
    apply (ofTerms?_eq_tree_of_expression none).2 _ _ hspells
    decide

end Tree

end Prerequisite
