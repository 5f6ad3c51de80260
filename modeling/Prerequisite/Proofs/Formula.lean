import Prerequisite.Proofs.PlainConjunction
import Prerequisite.Proofs.Tree.Alternation

/-!
# The two formulas of a list of criteria

A list of criteria has a formula that is read off the list itself, and a formula that is read off
its tree.  In the first one every conjunction and every disjunction of two operands stands between
brackets.  In the second one there are fewer brackets: consolidation joins a conjunction with the
one below it, and likewise a disjunction, and a group is listed without brackets.  Brackets apart,
the two are the same text.  They are the same with their brackets if the list is balanced, is not
plainly a conjunction, and nothing is joined when its tree is consolidated.  They are also the same
if the list is unbalanced.
-/

namespace Prerequisite

/-! ### Texts without brackets -/

/-- The text without its round brackets. -/
def withoutBrackets (text : String) : String :=
  String.ofList (text.toList.filter fun c => c ≠ '(' ∧ c ≠ ')')

@[simp]
theorem withoutBrackets_append (left right : String) :
  withoutBrackets (left ++ right) = withoutBrackets left ++ withoutBrackets right
  := by
  simp [withoutBrackets]

@[simp]
theorem withoutBrackets_joinedText (connective : Connective) (parts : List String) :
  withoutBrackets (joinedText connective parts)
    = joinedText connective (parts.map withoutBrackets)
  := by
  have hkeyword : withoutBrackets (" " ++ connective.keyword ++ " ")
      = " " ++ connective.keyword ++ " " := by
    cases connective <;> decide
  induction parts with
  | nil => rfl
  | cons part rest ih =>
    rcases rest with _ | ⟨next, rest⟩
    · simp [joinedText]
    · rw [joinedText, String.intercalate_cons_cons, withoutBrackets_append, withoutBrackets_append,
        hkeyword, ← joinedText, ih]
      simp [joinedText]

@[simp]
theorem withoutBrackets_bracketedText (connective : Connective) (parts : List String) :
  withoutBrackets (bracketedText connective parts)
    = joinedText connective (parts.map withoutBrackets)
  := by
  have hopening : withoutBrackets "(" = "" := by decide
  have hclosing : withoutBrackets ")" = "" := by decide
  rw [bracketedText, withoutBrackets_append, withoutBrackets_append, hopening, hclosing,
    String.empty_append, String.append_empty, withoutBrackets_joinedText]

theorem withoutBrackets_negatedText (operand : String) :
  withoutBrackets (negatedText operand) = "NOT " ++ withoutBrackets operand
  := by
  have hopening : withoutBrackets (Connective.not.keyword ++ " (") = "NOT " := by decide
  have hclosing : withoutBrackets ")" = "" := by decide
  rw [negatedText, withoutBrackets_append, withoutBrackets_append, hopening, hclosing,
    String.append_empty]

/-- Joining some texts in several groups, and then the groups, joins all of them. -/
theorem joinedText_flatMap {α : Type} {groups : List α} {texts : α → List String}
    (h : ∀ a ∈ groups, texts a ≠ []) (connective : Connective) :
  joinedText connective (groups.flatMap texts)
    = joinedText connective (groups.map fun a => joinedText connective (texts a))
  := by
  induction groups with
  | nil => rfl
  | cons a rest ih =>
    have hrest := ih fun b hb => h b (List.mem_cons_of_mem _ hb)
    rcases rest with _ | ⟨b, rest⟩
    · simp [joinedText]
    · have hne : (b :: rest).flatMap texts ≠ [] := by
        simp [h b (List.mem_cons_of_mem _ List.mem_cons_self)]
      rw [List.flatMap_cons, joinedText, String.intercalate_append_of_ne_nil
        (h a List.mem_cons_self) hne, ← joinedText, ← joinedText, hrest]
      simp [joinedText]

namespace Tree

/-! ### The formula of a tree -/

theorem formula_junction_congr
    {place place' : Place} {kind : Junction} {parts parts' : List Tree}
    (h : parts.map formula = parts'.map formula) :
  (Tree.junction place kind parts).formula = (Tree.junction place' kind parts').formula
  := by
  cases kind <;> simp only [formula, formulas_eq_map, h]

/-- The formula does not depend on the layout. -/
@[simp]
theorem formula_placedAt (place : Place) (t : Tree) :
  (t.placedAt place).formula = t.formula
  := by
  induction t using Tree.induction generalizing place with
  | requirement _ verdict term => rfl
  | negation _ operand ih => rw [placedAt, formula, formula, ih]
  | junction _ kind parts ih =>
    rw [placedAt]
    apply formula_junction_congr
    exact map_siblingsAt ih _

/-- The formula of a tree without its brackets. -/
def plainFormula (t : Tree) : String := withoutBrackets t.formula

theorem plainFormula_negation (place : Place) (operand : Tree) :
  (Tree.negation place operand).plainFormula = "NOT " ++ operand.plainFormula
  := by
  rw [plainFormula, formula, withoutBrackets_negatedText, plainFormula]

theorem plainFormula_junction (place : Place) (kind : Junction) (parts : List Tree) :
  (Tree.junction place kind parts).plainFormula
    = joinedText kind.connective (parts.map plainFormula)
  := by
  have hparts : (parts.map formula).map withoutBrackets = parts.map plainFormula := by
    rw [List.map_map]
    rfl
  cases kind <;>
    simp only [plainFormula, formula, formulas_eq_map, withoutBrackets_bracketedText,
      withoutBrackets_joinedText, hparts, Junction.connective]

/-! ### Formulas and consolidation -/

/-- What replaces a part is written as the part is, brackets apart. -/
theorem joinedText_plainFormula_spliced (kind : Junction) (t : Tree) :
  joinedText kind.connective ((t.spliced kind).map plainFormula) = t.plainFormula
  := by
  obtain ⟨place, parts, rfl, -, hspliced⟩ | hspliced := spliced_cases kind t
  · rw [hspliced, plainFormula_junction]
  · rw [hspliced, List.map_singleton, joinedText, String.intercalate_singleton]

/-- Consolidation changes the formula in nothing but brackets. -/
theorem HasOperands.plainFormula_consolidate {t : Tree} (h : t.HasOperands) :
  t.consolidate.plainFormula = t.plainFormula
  := by
  induction h with
  | requirement _ verdict term => rfl
  | negation _ _ ih =>
    rw [Tree.consolidate, Tree.not, plainFormula_negation, plainFormula_negation, ih]
  | @junction kind parts _ _ hparts ih =>
    have hne : ∀ part ∈ parts, (part.consolidate.spliced kind).map plainFormula ≠ [] := by
      intro part hpart
      rw [ne_eq, List.map_eq_nil_iff]
      exact (HasOperands.consolidate (hparts part hpart)).spliced_ne_nil kind
    rw [Tree.consolidate, consolidateParts_eq_flatMap, plainFormula_junction, plainFormula_junction,
      List.map_flatMap, joinedText_flatMap hne]
    congr 1
    apply List.map_congr_left
    intro part hpart
    rw [joinedText_plainFormula_spliced, ih part hpart]

/-- Consolidation does not change the formula if conjunctions and disjunctions alternate. -/
theorem Alternates.formula_consolidate {t : Tree} (h : t.Alternates) :
  t.consolidate.formula = t.formula
  := by
  induction h with
  | requirement _ verdict term => rfl
  | negation _ _ ih => rw [consolidate, Tree.not, formula, formula, ih]
  | @junction kind parts _ hconnective _ ih =>
    rw [consolidate, consolidateParts_eq_flatMap]
    apply formula_junction_congr
    rw [List.map_flatMap, List.map_eq_flatMap]
    apply List.flatMap_congr
    intro part hpart
    have hsame : part.consolidate.spliced kind = [part.consolidate] := by
      apply spliced_eq_singleton
      rw [connective?_consolidate]
      exact fun hkind => hconnective hkind part hpart
    rw [hsame, List.map_singleton, ih part hpart]

/-! ### The formula of a flat tree -/

/-- Brackets apart, a flat tree is written as the conjunction of its leaves. -/
theorem IsFlat.plainFormula_eq {t : Tree} (h : t.IsFlat) :
  t.plainFormula
    = joinedText .and (t.leaves.map fun leaf => withoutBrackets leaf.1.description)
  := by
  cases h with
  | requirement place verdict term => simp [plainFormula, formula, leaves, joinedText]
  | @junction kind parts place hkind hparts =>
    have hconnective : kind.connective = .and := by
      cases kind <;> simp_all [Junction.connective]
    rw [plainFormula_junction, hconnective, leaves, leavesOf_eq_flatMap, List.map_flatMap,
      List.map_eq_flatMap]
    congr 1
    apply List.flatMap_congr
    intro t ht
    obtain ⟨place, verdict, term, rfl⟩ := exists_eq_requirement (hparts t ht)
    rfl

theorem IsFlat.plainFormula_congr {t t' : Tree} (h : t.IsFlat) (h' : t'.IsFlat)
    (hleaves : t.leaves = t'.leaves) :
  t.plainFormula = t'.plainFormula
  := by
  rw [h.plainFormula_eq, h'.plainFormula_eq, hleaves]

/-! ### The formula of some terms -/

/-- The two texts that a connective joins are written as the parts of a tree are. -/
theorem bracketedText_pair (connective : Connective) (left right : String) :
  bracketedText connective [left, right]
    = "(" ++ left ++ " " ++ connective.keyword ++ " " ++ right ++ ")"
  := by
  simp [bracketedText, joinedText, String.intercalate_cons_cons, String.append_assoc]

/-- A term does to the formulas of some trees what it does to the trees, and it fails on the ones
exactly when it fails on the others. -/
theorem step_formula (stats : Option Snapshot) (term : Term) (stack : List Tree) :
  Formula.step (stack.map formula) term
    = (Postfix.step (meaning stats) stack term).map (List.map formula)
  := by
  unfold Formula.step Postfix.step
  rcases term.connective? with _ | _ | _ | _
  case none => rfl
  case some.and =>
    -- a conjunction is skipped on a stack of one tree as on the empty one
    rcases stack with _ | ⟨right, _ | ⟨left, rest⟩⟩
    · rfl
    · rfl
    · simp [meaning, Tree.all, formula, bracketedText_pair]
  case some.or =>
    rcases stack with _ | ⟨right, _ | ⟨left, rest⟩⟩
    · rfl
    · rfl
    · simp [meaning, Tree.any, formula, bracketedText_pair]
  case some.not =>
    rcases stack with _ | ⟨operand, rest⟩
    · rfl
    · rfl

/-- The stack of formulas is the stack of trees, each tree written as its formula. -/
theorem foldlM_formula (stats : Option Snapshot) (terms : List Term) (stack : List Tree) :
  terms.foldlM Formula.step (stack.map formula)
    = (terms.foldlM (Postfix.step (meaning stats)) stack).map (List.map formula)
  := by
  induction terms generalizing stack with
  | nil => rfl
  | cons term rest ih =>
    rw [List.foldlM_cons, List.foldlM_cons, step_formula stats]
    cases Postfix.step (meaning stats) stack term with
    | none => rfl
    | some next => apply ih

/-- The text of some terms is the formula of their binary tree. -/
theorem value?_formula (stats : Option Snapshot) (terms : List Term) :
  Formula.value? terms = (Postfix.value? (meaning stats) terms).map formula
  := by
  unfold Formula.value? Postfix.value?
  rw [← List.map_nil, foldlM_formula stats]
  rcases terms.foldlM (Postfix.step (meaning stats)) [] with _ | _ | ⟨t, _ | _⟩
  · rfl
  · rfl
  · rfl
  · rfl

theorem formula_groupOf (stats : Option Snapshot) (terms : List Term) :
  (groupOf stats terms).formula
    = joinedText .and ((terms.filter Term.isOperand).map Term.description)
  := by
  rw [groupOf, group, formula, formulas_eq_map, List.map_map]
  rfl

/-- The formula of some terms is that of their binary tree or, if they are unbalanced, that of the
group of their operands. -/
theorem ofTerms_eq_formula (stats : Option Snapshot) (terms : List Term) :
  Formula.ofTerms terms
    = ((Postfix.value? (meaning stats) terms).getD (groupOf stats terms)).formula
  := by
  have hgroup := formula_groupOf stats terms
  rw [Formula.ofTerms, value?_formula stats]
  rcases Postfix.value? (meaning stats) terms with _ | t
  · exact hgroup.symm
  · rfl

/-- A list of terms is read as a formula in step with the way in which it is read as a tree. From a
stack of formulas of some trees it leads to the formulas of the trees to which it leads from these
trees, or it fails on both stacks. So the list has a formula for its value exactly when it has a
tree, and the formula is that of the tree before the tree is consolidated. If it has neither, then
the formula that is given is that of the group of its operands. -/
theorem value?_formula_of_tree (stats : Option Snapshot) (terms : List Term) :
  (∀ stack : List Tree,
    terms.foldlM Formula.step (stack.map formula)
      = (terms.foldlM (Postfix.step (meaning stats)) stack).map (List.map formula))
  ∧ ((Formula.value? terms).isSome ↔ (Postfix.value? (meaning stats) terms).isSome)
  ∧ (∀ t, Postfix.value? (meaning stats) terms = some t →
    Formula.value? terms = some t.formula ∧ Formula.ofTerms terms = t.formula)
  ∧ (Postfix.value? (meaning stats) terms = none →
    Formula.ofTerms terms = (groupOf stats terms).formula)
  := by
  refine ⟨foldlM_formula stats terms, ?_, ?_, ?_⟩
  · rw [value?_formula stats, Option.isSome_map]
  · intro t ht
    constructor
    · rw [value?_formula stats, ht, Option.map_some]
    · rw [ofTerms_eq_formula stats, ht, Option.getD_some]
  · intro hnone
    rw [ofTerms_eq_formula stats, hnone, Option.getD_none]

/-- Conjunctions are skipped in the formula where they are skipped in the tree, and the operands are
listed where there is no tree. -/
theorem value?_formula_of_skipped_or_unbalanced :
  let a := Criterion.term .none ⟨0, 1, 0, 1⟩
  let b := Criterion.term .none ⟨1, 2, 0, 2⟩
  let and := Criterion.term .none (.sentinel 2 4)
  let or := Criterion.term .none (.sentinel 3 3)
  let not := Criterion.term .none (.sentinel 4 42)
  Formula.value? [and, a, and, b, or, and, not] = some "NOT ((Stat 1 = 1 OR Stat 2 = 2))"
    ∧ Formula.ofTerms [a, or, and, b, not] = "Stat 1 = 1 AND Stat 2 = 2"
  := by
  intro a b and or not
  constructor
  · have htree : Postfix.value? (meaning none) [and, a, and, b, or, and, not]
        = some (Tree.not (.any [ofTerm none a, ofTerm none b])) := rfl
    obtain ⟨-, -, hbalanced, -⟩ := value?_formula_of_tree none [and, a, and, b, or, and, not]
    rw [(hbalanced _ htree).1]
    decide
  · have hnone : Postfix.value? (meaning none) [a, or, and, b, not] = none := rfl
    obtain ⟨-, -, -, hunbalanced⟩ := value?_formula_of_tree none [a, or, and, b, not]
    rw [hunbalanced hnone]
    decide

/-- Brackets apart, the binary tree of terms that plainly are a conjunction is written as the group
of their operands. -/
theorem plainFormula_of_isPlainConjunction
    {stats : Option Snapshot} {terms : List Term} (h : isPlainConjunction terms) {t : Tree}
    (hvalue : Postfix.value? (meaning stats) terms = some t) :
  t.plainFormula = (groupOf stats terms).plainFormula
  := by
  have hoperands : t.HasOperands := (isExpression_of_value? hvalue).hasOperands
  have hleaves : t.consolidate.leaves = (groupOf stats terms).leaves := by
    rw [leaves_consolidate, leaves_of_value? hvalue, leaves_groupOf]
  have hflat : t.consolidate.IsFlat := by
    obtain ⟨e, hspells, rfl⟩ := Postfix.exists_spells_of_value? hvalue
    apply isFlat_consolidate_of_spells _ hspells
    intro term hterm connective
    exact eq_and_of_isPlainConjunction h hterm
  rw [← hoperands.plainFormula_consolidate]
  exact hflat.plainFormula_congr (isFlat_groupOf stats terms) hleaves

theorem hasOperands_rough (stats : Option Snapshot) (terms : List Term) :
  (rough stats terms).HasOperands
  := by
  obtain hexpression | hgroup := isExpression_or_eq_groupOf stats terms
  · exact hexpression.hasOperands
  · rw [hgroup]
    apply Shaped.junction _ (by simp)
    intro t ht
    obtain ⟨term, -, rfl⟩ := List.mem_map.mp ht
    exact .requirement _ _ _

/-- Brackets apart, the formula of some terms is that of the tree which they denote. -/
theorem plainFormula_rough (stats : Option Snapshot) (terms : List Term) :
  (rough stats terms).plainFormula = withoutBrackets (Formula.ofTerms terms)
  := by
  rw [ofTerms_eq_formula stats]
  by_cases hplain : isPlainConjunction terms
  · rw [rough, if_pos hplain]
    rcases hvalue : Postfix.value? (meaning stats) terms with _ | t
    · rfl
    · exact (plainFormula_of_isPlainConjunction hplain hvalue).symm
  · rw [rough, if_neg hplain]
    rfl

theorem formula_build? (names : Names) (stats : Option Snapshot) (criteria : List Criterion) :
  (build? names stats criteria).elim "" formula
    = (rough stats (terms names criteria)).consolidate.formula
  := by
  rcases criteria with _ | ⟨c, rest⟩
  · rfl
  · rw [build?, terms, List.map_cons, ofTerms?_of_ne_nil (List.cons_ne_nil _ _), Option.elim_some,
      finalize, formula_placedAt]

/-- Brackets apart, the formula of the tree of some criteria, which is empty if there is no tree,
is the formula that is read off the criteria. The two are the same with their brackets if the
criteria are unbalanced, or if they are not plainly a conjunction and conjunctions and disjunctions
alternate in their binary tree. -/
theorem formula_build?_agrees
    (names : Names) (stats : Option Snapshot) (criteria : List Criterion) :
  withoutBrackets ((build? names stats criteria).elim "" formula)
      = withoutBrackets (Formula.ofTerms (terms names criteria))
    ∧ (Postfix.value? (meaning stats) (terms names criteria) = none
        ∨ isPlainConjunction (terms names criteria) = false
          ∧ (∃ t, Postfix.value? (meaning stats) (terms names criteria) = some t ∧ t.Alternates) →
      (build? names stats criteria).elim "" formula = Formula.ofTerms (terms names criteria))
  := by
  rw [formula_build?]
  constructor
  · rw [← plainFormula_rough stats]
    exact (hasOperands_rough stats (terms names criteria)).plainFormula_consolidate
  · rw [ofTerms_eq_formula stats]
    rintro (hvalue | ⟨hplain, t, hvalue, halternates⟩)
    · have hgroup : rough stats (terms names criteria) = groupOf stats (terms names criteria) := by
        rw [rough, hvalue, Option.getD_none, ite_self]
      rw [hgroup, hvalue, consolidate_groupOf, Option.getD_none]
    · rw [rough_of_value?_eq_some hplain hvalue, hvalue, Option.getD_some]
      exact halternates.formula_consolidate

/-- Brackets in names do not disturb the agreement, and neither does a skipped conjunction. -/
theorem formula_of_alternating :
  let names : Names := fun subject => if subject = .stat 1 then some ")Level(" else none
  let criteria : List Criterion :=
    [.sentinel 0 4, ⟨1, 1, 0, 1⟩, ⟨2, 2, 0, 2⟩, ⟨3, 3, 0, 3⟩, .sentinel 4 3, .sentinel 5 4,
      .sentinel 6 42]
  isPlainConjunction (terms names criteria) = false
    ∧ (∃ t, Postfix.value? (meaning none) (terms names criteria) = some t ∧ t.Alternates)
    ∧ (build? names none criteria).elim "" formula
      = "NOT (()Level( = 1 AND (Stat 2 = 2 OR Stat 3 = 3)))"
  := by
  intro names criteria
  have hplain : isPlainConjunction (terms names criteria) = false := by decide
  have halternates : ∃ t, Postfix.value? (meaning none) (terms names criteria) = some t
      ∧ t.Alternates := by
    let leaf (c : Criterion) : Tree := ofTerm none (c.term names)
    use Tree.not (.all [leaf ⟨1, 1, 0, 1⟩, .any [leaf ⟨2, 2, 0, 2⟩, leaf ⟨3, 3, 0, 3⟩]]), rfl
    apply Alternates.negation
    simp [leaf, ofTerm, Tree.all, Tree.any, alternates_junction_iff, Alternates.requirement,
      connective?, Junction.connective]
  refine ⟨hplain, halternates, ?_⟩
  rw [(formula_build?_agrees names none criteria).2 (.inr ⟨hplain, halternates⟩)]
  decide

end Tree

end Prerequisite
