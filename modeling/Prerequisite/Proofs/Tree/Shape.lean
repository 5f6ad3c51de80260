import Mathlib.Algebra.BigOperators.Group.List.Basic
import Prerequisite.Expression
import Prerequisite.Proofs.Postfix
import Prerequisite.Tree.Evaluation

/-!
# The shape of a tree

The shape of a tree is the tree without its places and its verdicts.  A condition on the number
of parts below the inner nodes is kept by layouts, by evaluation and by consolidation.  The tree
of some criteria is either the tree of an expression, which contains no groups and in which each
conjunction and each disjunction has two parts at least, or a group of requirements.  Its
requirements are the operands among the criteria, in their order.
-/

namespace Prerequisite.Tree

/-! ### Parts -/

/-- What does not depend on the place of a tree is the same for siblings and for the trees that
are placed as siblings. -/
theorem map_siblingsAt
    {α : Type} {f : Tree → α} {parts : List Tree}
    (h : ∀ t ∈ parts, ∀ place, f (t.placedAt place) = f t) (level : Nat) :
  (siblingsAt level parts).map f = parts.map f
  := by
  induction parts with
  | nil => rfl
  | cons t rest ih =>
    rw [siblingsAt, List.map_cons, List.map_cons, h t List.mem_cons_self,
      ih fun u hu => h u (List.mem_cons_of_mem _ hu)]

/-- Siblings are related to the trees that are placed as siblings as trees are to themselves in any
other place. -/
theorem forall₂_siblingsAt
    {r : Tree → Tree → Prop} {parts : List Tree}
    (h : ∀ t ∈ parts, ∀ place, r t (t.placedAt place)) (level : Nat) :
  List.Forall₂ r parts (siblingsAt level parts)
  := by
  induction parts with
  | nil => exact .nil
  | cons t rest ih =>
    exact .cons (h t List.mem_cons_self _) (ih fun u hu => h u (List.mem_cons_of_mem _ hu))

@[simp]
theorem length_siblingsAt (level : Nat) (parts : List Tree) :
  (siblingsAt level parts).length = parts.length
  := by
  induction parts with
  | nil => rfl
  | cons t rest ih => simp [siblingsAt, ih]

theorem exists_of_mem_siblingsAt
    {level : Nat} {parts : List Tree} {t : Tree} (h : t ∈ siblingsAt level parts) :
  ∃ part ∈ parts, ∃ place, t = part.placedAt place
  := by
  induction parts with
  | nil => simp [siblingsAt] at h
  | cons part rest ih =>
    rcases List.mem_cons.mp h with rfl | h
    · exact ⟨part, List.mem_cons_self, _, rfl⟩
    · obtain ⟨u, hu, hplace⟩ := ih h
      use u, List.mem_cons_of_mem _ hu

/-- A part is replaced by its own parts, if it is joined in the same way and not a group, and
otherwise it stays. -/
theorem spliced_cases (kind : Junction) (t : Tree) :
  (∃ place parts, t = .junction place kind parts ∧ kind ≠ .group ∧ t.spliced kind = parts)
    ∨ t.spliced kind = [t]
  := by
  cases t with
  | requirement place verdict term =>
    right
    rfl
  | negation place operand =>
    right
    rfl
  | junction place k parts =>
    by_cases h : k = kind ∧ kind ≠ .group
    · left
      obtain ⟨rfl, hkind⟩ := h
      use place, parts, rfl, hkind
      simp [spliced, hkind]
    · right
      simp [spliced, h]

/-! ### Nodes below a root -/

/-- A tree occurs in another one below a number of negations. -/
inductive OccursIn (t : Tree) : Nat → Tree → Prop where
  | root : OccursIn t 0 t
  | negation {depth : Nat} {operand : Tree} (place : Place) :
      OccursIn t depth operand → OccursIn t (depth + 1) (.negation place operand)
  | junction {depth : Nat} {part : Tree} {parts : List Tree} (place : Place) (kind : Junction) :
      part ∈ parts → OccursIn t depth part → OccursIn t depth (.junction place kind parts)

/-! ### Shapes -/

/-- In the tree, the number of parts below each inner node is allowed for its kind. -/
inductive Shaped (allowed : Junction → Nat → Prop) : Tree → Prop where
  | requirement (place : Place) (verdict : Option Bool) (term : Term) :
      Shaped allowed (.requirement place verdict term)
  | negation {operand : Tree} (place : Place) :
      Shaped allowed operand → Shaped allowed (.negation place operand)
  | junction {kind : Junction} {parts : List Tree} (place : Place) :
      allowed kind parts.length → (∀ t ∈ parts, Shaped allowed t) →
      Shaped allowed (.junction place kind parts)

/-- The tree contains no groups, and its conjunctions and disjunctions have two parts at
least. -/
def IsExpression : Tree → Prop := Shaped fun kind arity => kind ≠ .group ∧ 2 ≤ arity

/-- Each conjunction, disjunction and group in the tree has a part. -/
def IsFull : Tree → Prop := Shaped fun _ arity => 0 < arity

/-- Each conjunction and each disjunction in the tree has a part. -/
def HasOperands : Tree → Prop := Shaped fun kind arity => kind ≠ .group → 0 < arity

/-- The tree is built from requirements by negation, by conjunction and disjunction of two trees,
and by grouping. -/
inductive IsConstructed : Tree → Prop where
  | requirement (verdict : Option Bool) (term : Term) :
      IsConstructed (.requirement {} verdict term)
  | not {operand : Tree} : IsConstructed operand → IsConstructed operand.not
  | and {left right : Tree} :
      IsConstructed left → IsConstructed right → IsConstructed (.all [left, right])
  | or {left right : Tree} :
      IsConstructed left → IsConstructed right → IsConstructed (.any [left, right])
  | group {parts : List Tree} : (∀ t ∈ parts, IsConstructed t) → IsConstructed (group parts)

variable {allowed : Junction → Nat → Prop} {t : Tree}

theorem Shaped.mono
    {allowed' : Junction → Nat → Prop}
    (himp : ∀ kind arity, allowed kind arity → allowed' kind arity) (h : t.Shaped allowed) :
  t.Shaped allowed'
  := by
  induction h with
  | requirement place verdict term => exact .requirement place verdict term
  | negation place _ ih => exact .negation place ih
  | junction place hallowed _ ih => exact .junction place (himp _ _ hallowed) ih

theorem Shaped.of_mem
    {place : Place} {kind : Junction} {part : Tree} {parts : List Tree}
    (h : (Tree.junction place kind parts).Shaped allowed) (hpart : part ∈ parts) :
  part.Shaped allowed
  := by
  cases h with
  | junction _ _ hparts => exact hparts part hpart

theorem Shaped.of_mem_children {child : Tree} (h : t.Shaped allowed) (hchild : child ∈ t.children) :
  child.Shaped allowed
  := by
  cases h with
  | requirement place verdict term => cases hchild
  | negation place hoperand =>
    obtain rfl := List.mem_singleton.mp hchild
    exact hoperand
  | junction place _ hparts => exact hparts child hchild

theorem IsExpression.isFull (h : t.IsExpression) :
  t.IsFull
  := by
  apply Shaped.mono _ h
  intro kind arity hallowed
  omega

theorem IsExpression.hasOperands (h : t.IsExpression) :
  t.HasOperands
  := by
  apply Shaped.mono _ h
  rintro kind arity ⟨-, harity⟩ -
  omega

theorem IsConstructed.hasOperands (h : t.IsConstructed) :
  t.HasOperands
  := by
  induction h with
  | requirement verdict term => exact .requirement _ _ _
  | not _ ih => exact .negation _ ih
  | and _ _ hleft hright | or _ _ hleft hright =>
    apply Shaped.junction _ (by simp)
    simpa using ⟨hleft, hright⟩
  | group _ ih => exact .junction _ (by simp) ih

theorem Shaped.placedAt (h : t.Shaped allowed) (place : Place) :
  (t.placedAt place).Shaped allowed
  := by
  induction h generalizing place with
  | requirement _ verdict term => exact .requirement place verdict term
  | negation _ _ ih => exact .negation place (ih _)
  | junction _ hallowed _ ih =>
    apply Shaped.junction place
    · rwa [length_siblingsAt]
    · intro u hu
      obtain ⟨part, hpart, place, rfl⟩ := exists_of_mem_siblingsAt hu
      apply ih part hpart

theorem Shaped.decided (h : t.Shaped allowed) (stats : Option Snapshot) :
  (t.decided stats).Shaped allowed
  := by
  induction h with
  | requirement _ _ term => exact .requirement _ _ term
  | negation _ _ ih => exact .negation _ ih
  | junction _ hallowed _ ih =>
    rw [Tree.decided, eachDecided_eq_map]
    apply Shaped.junction
    · rwa [List.length_map]
    · intro u hu
      obtain ⟨part, hpart, rfl⟩ := List.mem_map.mp hu
      apply ih part hpart

/-- The parts that replace a part are shaped as the part is, and there is one at least. -/
theorem Shaped.spliced
    (hpos : ∀ kind arity, kind ≠ .group → allowed kind arity → 0 < arity) (kind : Junction)
    (h : t.Shaped allowed) :
  1 ≤ (t.spliced kind).length ∧ ∀ u ∈ t.spliced kind, u.Shaped allowed
  := by
  obtain ⟨place, parts, rfl, hkind, hspliced⟩ | hspliced := spliced_cases kind t
  · rw [hspliced]
    cases h with
    | junction _ hallowed hparts =>
      use hpos kind _ hkind hallowed
  · rw [hspliced]
    simpa using h

/-- Consolidation keeps a condition on the number of parts that more parts do not violate and
that asks for a part of each conjunction and of each disjunction. -/
theorem Shaped.consolidate
    (hmono : ∀ kind m n, allowed kind m → m ≤ n → allowed kind n)
    (hpos : ∀ kind arity, kind ≠ .group → allowed kind arity → 0 < arity)
    (h : t.Shaped allowed) :
  t.consolidate.Shaped allowed
  := by
  induction h with
  | requirement _ verdict term => exact .requirement _ verdict term
  | negation _ _ ih => exact .negation _ ih
  | @junction kind parts _ hallowed _ ih =>
    rw [Tree.consolidate, consolidateParts_eq_flatMap]
    apply Shaped.junction
    · apply hmono kind parts.length _ hallowed
      rw [List.length_flatMap]
      apply le_of_eq_of_le (List.length_map _).symm (List.length_le_sum_of_one_le _ _)
      intro arity harity
      obtain ⟨part, hpart, rfl⟩ := List.mem_map.mp harity
      apply ((ih part hpart).spliced hpos kind).1
    · intro u hu
      obtain ⟨part, hpart, hmem⟩ := List.mem_flatMap.mp hu
      apply ((ih part hpart).spliced hpos kind).2 u hmem

/-- What occurs in a shaped tree is shaped. -/
theorem Shaped.of_occursIn {root : Tree} {depth : Nat} (hroot : root.Shaped allowed)
    (h : t.OccursIn depth root) :
  t.Shaped allowed
  := by
  induction h with
  | root => exact hroot
  | negation _ _ ih =>
    cases hroot with
    | negation _ hoperand => exact ih hoperand
  | junction _ _ hpart _ ih =>
    cases hroot with
    | junction _ _ hparts => exact ih (hparts _ hpart)

theorem IsExpression.consolidate (h : t.IsExpression) :
  t.consolidate.IsExpression
  := by
  apply Shaped.consolidate _ _ h
  · rintro kind m n ⟨hkind, hm⟩ hle
    exact ⟨hkind, Nat.le_trans hm hle⟩
  · rintro kind arity hkind ⟨-, harity⟩
    omega

theorem HasOperands.consolidate (h : t.HasOperands) :
  t.consolidate.HasOperands
  := by
  apply Shaped.consolidate _ _ h
  · intro kind m n hm hle hkind
    exact Nat.lt_of_lt_of_le (hm hkind) hle
  · intro kind arity hkind harity
    exact harity hkind

theorem HasOperands.spliced_ne_nil (h : t.HasOperands) (kind : Junction) :
  t.spliced kind ≠ []
  := by
  apply List.ne_nil_of_length_pos
  apply (Shaped.spliced _ kind h).1
  intro kind arity hkind harity
  exact harity hkind

/-! ### Leaves -/

theorem mem_leaves_junction_iff
    {place : Place} {kind : Junction} {parts : List Tree} {leaf : Term × Option Bool} :
  leaf ∈ (Tree.junction place kind parts).leaves ↔ ∃ part ∈ parts, leaf ∈ part.leaves
  := by
  rw [leaves, leavesOf_eq_flatMap, List.mem_flatMap]

@[simp]
theorem leaves_placedAt (place : Place) (t : Tree) :
  (t.placedAt place).leaves = t.leaves
  := by
  induction t using Tree.induction generalizing place with
  | requirement _ verdict term => rfl
  | negation _ operand ih => rw [placedAt, leaves, leaves, ih]
  | junction _ kind parts ih =>
    rw [placedAt, leaves, leaves, leavesOf_eq_flatMap, leavesOf_eq_flatMap, List.flatMap_def,
      List.flatMap_def, map_siblingsAt (fun t ht place => ih t ht place)]

theorem leaves_spliced (kind : Junction) (t : Tree) :
  (t.spliced kind).flatMap leaves = t.leaves
  := by
  obtain ⟨place, parts, rfl, -, hspliced⟩ | hspliced := spliced_cases kind t
  · rw [hspliced, leaves, leavesOf_eq_flatMap]
  · rw [hspliced, List.flatMap_singleton]

@[simp]
theorem leaves_consolidate (t : Tree) :
  t.consolidate.leaves = t.leaves
  := by
  induction t using Tree.induction with
  | requirement _ verdict term => rfl
  | negation _ operand ih => rw [consolidate, Tree.not, leaves, leaves, ih]
  | junction _ kind parts ih =>
    rw [consolidate, leaves, leaves, leavesOf_eq_flatMap, leavesOf_eq_flatMap,
      consolidateParts_eq_flatMap, List.flatMap_assoc]
    apply List.flatMap_congr
    intro t ht
    rw [leaves_spliced, ih t ht]

/-! ### The tree of some criteria -/

/-- Conjunction, disjunction and negation of trees put their leaves one after the other. -/
theorem lists_leaves (stats : Option Snapshot) :
  Postfix.Lists leaves (meaning stats)
  := by
  constructor
  · intro operand
    rfl
  · intro left right
    simp [meaning, Tree.all, leaves]
  · intro left right
    simp [meaning, Tree.any, leaves]

theorem leaves_groupOf (stats : Option Snapshot) (terms : List Term) :
  (groupOf stats terms).leaves
    = (terms.filter Term.isOperand).map fun term => (term, term.verdict stats)
  := by
  rw [groupOf, group, leaves, leavesOf_eq_flatMap, List.flatMap_map, List.map_eq_flatMap]
  rfl

/-- The leaves of a tree that a balanced list of terms denotes are the operands among the terms. -/
theorem leaves_of_value? {stats : Option Snapshot} {terms : List Term} {t : Tree}
    (h : Postfix.value? (meaning stats) terms = some t) :
  t.leaves = (terms.filter Term.isOperand).map fun term => (term, term.verdict stats)
  := by
  rw [Postfix.flatMap_value? (lists_leaves stats) h]
  simp [meaning, ofTerm, leaves, List.map_eq_flatMap]

/-- The leaves of the tree that some terms denote are the operands among the terms. -/
theorem leaves_rough (stats : Option Snapshot) (terms : List Term) :
  (rough stats terms).leaves
    = (terms.filter Term.isOperand).map fun term => (term, term.verdict stats)
  := by
  unfold rough
  split
  · apply leaves_groupOf
  · rcases hvalue : Postfix.value? (meaning stats) terms with _ | t
    · apply leaves_groupOf
    · exact leaves_of_value? hvalue

/-- A tree that a balanced list of terms denotes is that of an expression. -/
theorem isExpression_of_value? {stats : Option Snapshot} {terms : List Term} {t : Tree}
    (h : Postfix.value? (meaning stats) terms = some t) :
  t.IsExpression
  := by
  apply Postfix.value?_induction _ h
  constructor
  · intro term _ _
    exact .requirement _ _ _
  · intro operand _ hoperand
    exact .negation _ hoperand
  · intro left right _ _ hleft hright
    apply Shaped.junction _ (by simp)
    simpa using ⟨hleft, hright⟩
  · intro left right _ _ hleft hright
    apply Shaped.junction _ (by simp)
    simpa using ⟨hleft, hright⟩

/-- A group of requirements is consolidated already. -/
theorem consolidate_groupOf (stats : Option Snapshot) (terms : List Term) :
  (groupOf stats terms).consolidate = groupOf stats terms
  := by
  rw [groupOf, group, consolidate, consolidateParts_eq_flatMap, List.flatMap_map,
    List.map_eq_flatMap]
  rfl

/-- What some terms denote is the tree of an expression, or it is the group of their operands. -/
theorem isExpression_or_eq_groupOf (stats : Option Snapshot) (terms : List Term) :
  (rough stats terms).IsExpression ∨ rough stats terms = groupOf stats terms
  := by
  unfold rough
  split
  · right
    rfl
  · rcases hvalue : Postfix.value? (meaning stats) terms with _ | t
    · right
      rfl
    · left
      exact isExpression_of_value? hvalue

/-- The tree of some criteria, if there are any, is the tree of their terms, consolidated and
laid out. -/
theorem build?_eq_some_iff
    {names : Names} {stats : Option Snapshot} {criteria : List Criterion} {t : Tree} :
  build? names stats criteria = some t
    ↔ criteria ≠ [] ∧ (rough stats (terms names criteria)).consolidate.finalize = t
  := by
  simp [build?, ofTerms?, terms]

theorem build?_eq_none_iff
    {names : Names} {stats : Option Snapshot} {criteria : List Criterion} :
  build? names stats criteria = none ↔ criteria = []
  := by
  simp [build?, ofTerms?, terms]

theorem exists_build?
    (names : Names) (stats : Option Snapshot) {criteria : List Criterion} (h : criteria ≠ []) :
  ∃ t, build? names stats criteria = some t
  := by
  use (rough stats (terms names criteria)).consolidate.finalize
  exact build?_eq_some_iff.mpr ⟨h, rfl⟩

theorem leaves_of_build?
    {names : Names} {stats : Option Snapshot} {criteria : List Criterion} {t : Tree}
    (h : build? names stats criteria = some t) :
  t.leaves
    = ((terms names criteria).filter Term.isOperand).map fun term => (term, term.verdict stats)
  := by
  obtain ⟨-, rfl⟩ := build?_eq_some_iff.mp h
  rw [finalize, leaves_placedAt, leaves_consolidate, leaves_rough]

theorem leafCount_of_build?
    {names : Names} {stats : Option Snapshot} {criteria : List Criterion} {t : Tree}
    (h : build? names stats criteria = some t) :
  t.leafCount = (terms names criteria).countP Term.isOperand
  := by
  rw [leafCount, leaves_of_build? h, List.length_map, ← List.countP_eq_length_filter]

/-- The verdicts of the leaves are those that the snapshot gives. -/
theorem verdict_of_mem_leaves
    {names : Names} {stats : Option Snapshot} {criteria : List Criterion} {t : Tree}
    (h : build? names stats criteria = some t) {leaf : Term × Option Bool}
    (hleaf : leaf ∈ t.leaves) :
  leaf.2 = leaf.1.verdict stats
  := by
  rw [leaves_of_build? h] at hleaf
  obtain ⟨term, -, rfl⟩ := List.mem_map.mp hleaf
  rfl

/-- The tree of some criteria is the tree of an expression, or it is the group of their operands. -/
theorem isExpression_or_eq_groupOf_of_build?
    {names : Names} {stats : Option Snapshot} {criteria : List Criterion} {t : Tree}
    (h : build? names stats criteria = some t) :
  t.IsExpression ∨ t = (groupOf stats (terms names criteria)).finalize
  := by
  obtain ⟨-, rfl⟩ := build?_eq_some_iff.mp h
  obtain hexpression | hgroup := isExpression_or_eq_groupOf stats (terms names criteria)
  · left
    apply Shaped.placedAt hexpression.consolidate
  · right
    rw [hgroup, consolidate_groupOf]

/-- The parts of a group of operands are requirements. -/
theorem exists_eq_requirement_of_mem
    {stats : Option Snapshot} {terms : List Term} {place : Place} {part : Tree}
    (hpart : part ∈ ((groupOf stats terms).placedAt place).children) :
  ∃ place verdict term, part = .requirement place verdict term
  := by
  obtain ⟨u, hu, place, rfl⟩ := exists_of_mem_siblingsAt hpart
  obtain ⟨term, -, rfl⟩ := List.mem_map.mp hu
  exact ⟨place, _, term, rfl⟩

/-- The tree of some criteria is the tree of an expression, or a group of such trees. -/
theorem isExpression_or_group_of_build?
    {names : Names} {stats : Option Snapshot} {criteria : List Criterion} {t : Tree}
    (h : build? names stats criteria = some t) :
  t.IsExpression
    ∨ ∃ place parts, t = .junction place .group parts ∧ ∀ part ∈ parts, part.IsExpression
  := by
  obtain hexpression | rfl := isExpression_or_eq_groupOf_of_build? h
  · left
    exact hexpression
  · right
    refine ⟨_, _, rfl, ?_⟩
    intro part hpart
    obtain ⟨place, verdict, term, rfl⟩ := exists_eq_requirement_of_mem hpart
    exact .requirement place verdict term

/-- Each inner node of the tree of some criteria has a part, unless there are no operands. -/
theorem isFull_or_emptyGroup_of_build?
    {names : Names} {stats : Option Snapshot} {criteria : List Criterion} {t : Tree}
    (h : build? names stats criteria = some t) :
  t.IsFull ∨ ∃ place, t = .junction place .group []
  := by
  obtain hexpression | ⟨place, parts, rfl, hparts⟩ := isExpression_or_group_of_build? h
  · left
    exact hexpression.isFull
  · rcases parts with _ | ⟨part, rest⟩
    · right
      use place
    · left
      apply Shaped.junction place (by simp)
      intro u hu
      apply (hparts u hu).isFull

end Prerequisite.Tree
