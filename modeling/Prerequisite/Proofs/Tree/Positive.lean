import Prerequisite.Proofs.Grammar

/-!
# Trees without negations

A list of criteria in which no negation stands has a tree without negations.  Layouts and
consolidation bring none in.
-/

namespace Prerequisite.Tree

/-- No negation occurs in the tree. -/
inductive IsPositive : Tree → Prop where
  | requirement (place : Place) (verdict : Option Bool) (term : Term) :
      IsPositive (.requirement place verdict term)
  | junction {parts : List Tree} (place : Place) (kind : Junction) :
      (∀ t ∈ parts, IsPositive t) → IsPositive (.junction place kind parts)

variable {t : Tree}

theorem isPositive_junction_iff {place : Place} {kind : Junction} {parts : List Tree} :
  (Tree.junction place kind parts).IsPositive ↔ ∀ t ∈ parts, t.IsPositive
  := by
  constructor
  · rintro (_ | ⟨_, _, hparts⟩)
    exact hparts
  · apply IsPositive.junction

theorem IsPositive.placedAt (h : t.IsPositive) (place : Place) :
  (t.placedAt place).IsPositive
  := by
  induction h generalizing place with
  | requirement _ verdict term => exact .requirement place verdict term
  | junction _ kind _ ih =>
    apply IsPositive.junction
    intro u hu
    obtain ⟨part, hpart, place, rfl⟩ := exists_of_mem_siblingsAt hu
    apply ih part hpart

theorem IsPositive.spliced (h : t.IsPositive) (kind : Junction) :
  ∀ u ∈ t.spliced kind, u.IsPositive
  := by
  obtain ⟨place, parts, rfl, -, hspliced⟩ | hspliced := spliced_cases kind t
  · rw [hspliced]
    exact isPositive_junction_iff.mp h
  · rw [hspliced]
    simpa using h

theorem IsPositive.consolidate (h : t.IsPositive) :
  t.consolidate.IsPositive
  := by
  induction h with
  | requirement _ verdict term => exact .requirement _ verdict term
  | junction _ kind _ ih =>
    rw [Tree.consolidate, consolidateParts_eq_flatMap]
    apply IsPositive.junction
    intro u hu
    obtain ⟨part, hpart, hmem⟩ := List.mem_flatMap.mp hu
    apply (ih part hpart).spliced kind u hmem

/-- No negation occurs in what occurs in a tree without negations. -/
theorem IsPositive.of_occursIn {root : Tree} {depth : Nat} (hroot : root.IsPositive)
    (h : t.OccursIn depth root) :
  t.IsPositive
  := by
  induction h with
  | root => exact hroot
  | negation _ _ _ => cases hroot
  | junction _ _ hpart _ ih => exact ih (isPositive_junction_iff.mp hroot _ hpart)

theorem isPositive_groupOf (stats : Option Snapshot) (terms : List Term) :
  (groupOf stats terms).IsPositive
  := by
  apply IsPositive.junction
  intro t ht
  obtain ⟨term, -, rfl⟩ := List.mem_map.mp ht
  exact .requirement _ _ _

theorem isPositive_value_of_expression {e : Postfix.Expression} (h : .not ∉ e.connectives)
    (stats : Option Snapshot) :
  (e.value (meaning stats)).IsPositive
  := by
  induction e with
  | operand term => exact .requirement _ _ _
  | not e _ => simp [Postfix.Expression.connectives] at h
  | and left right hleft hright | or left right hleft hright =>
    simp only [Postfix.Expression.connectives, List.mem_append, not_or] at h
    apply IsPositive.junction
    simpa using ⟨hleft h.1.1, hright h.1.2⟩

/-- Criteria without a negation have a tree without negations. -/
theorem isPositive_of_build?
    {names : Names} {stats : Option Snapshot} {criteria : List Criterion}
    (hnot : ∀ c ∈ criteria, c.kind ≠ .connective .not)
    (h : build? names stats criteria = some t) :
  t.IsPositive
  := by
  obtain ⟨-, rfl⟩ := build?_eq_some_iff.mp h
  apply IsPositive.placedAt
  apply IsPositive.consolidate
  obtain hgroup | ⟨e, hspells, hrough⟩ := rough_cases stats (terms names criteria)
  · rw [hgroup]
    apply isPositive_groupOf
  · rw [hrough]
    apply isPositive_value_of_expression
    intro hmem
    obtain ⟨c, hc, hkind⟩ := Postfix.exists_kind_of_spells hspells hmem
    exact hnot c hc hkind

end Prerequisite.Tree
