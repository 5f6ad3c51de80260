import Prerequisite.Proofs.Tree.Alternation
import Prerequisite.Proofs.Tree.Congruence

/-!
# Associativity

Consolidation finds out whether two trees differ by the bracketing of nested conjunctions and of
nested disjunctions, and by nothing else.  On the one hand, the parts of a consolidated node stand
in the order of the brackets that were removed.  On the other hand, the parts can be bracketed from
the right again, and each tree becomes the tree so bracketed when its brackets are moved.
-/

namespace Prerequisite.Tree

/-- The second tree is the first one, in which two nested conjunctions or two nested disjunctions
are bracketed from the left and no longer from the right. -/
inductive Reassociates : Tree → Tree → Prop where
  | left {kind : Junction} (x y z : Tree) : kind ≠ .group →
      Reassociates (.junction {} kind [x, .junction {} kind [y, z]])
        (.junction {} kind [.junction {} kind [x, y], z])

/-- The parts of a group are consolidated one by one. -/
theorem consolidateParts_group (parts : List Tree) :
  consolidateParts .group parts = parts.map consolidate
  := by
  rw [consolidateParts_eq_flatMap, List.map_eq_flatMap]
  apply List.flatMap_congr
  intro t _
  apply spliced_eq_singleton
  simp

/-! ### What is bracketed differently is consolidated alike -/

theorem consolidate_eq_of_reassociates {t u : Tree} (h : Reassociates t u) :
  t.consolidate = u.consolidate
  := by
  obtain ⟨x, y, z, hkind⟩ := h
  simp [consolidate, spliced, hkind]

theorem consolidate_eq_of_congruent {t u : Tree} (h : Congruent Reassociates t u) :
  t.consolidate = u.consolidate
  := by
  induction h with
  | base h => exact consolidate_eq_of_reassociates h
  | refl t => rfl
  | symm _ ih => exact ih.symm
  | trans _ _ ih ih' => exact ih.trans ih'
  | negation place _ ih => rw [consolidate, ih, consolidate]
  | junction place kind before after _ ih => simp [consolidate, ih]

/-! ### The tree bracketed from the right -/

/-- Some trees joined two at a time, with the brackets on the right. -/
def nest (kind : Junction) : List Tree → Tree
  | [] => .junction {} kind []
  | [t] => t
  | t :: u :: rest => .junction {} kind [t, nest kind (u :: rest)]

mutual

/-- The tree with conjunctions and disjunctions of two parts, bracketed from the right. -/
def nested : Tree → Tree
  | .requirement place verdict term => .requirement place verdict term
  | .negation place operand => .negation place operand.nested
  | .junction place .group parts => .junction place .group (eachNested parts)
  | .junction _ kind parts => nest kind (eachNested parts)

/-- Some trees, each bracketed from the right. -/
def eachNested : List Tree → List Tree
  | [] => []
  | t :: rest => t.nested :: eachNested rest

end

@[simp]
theorem eachNested_eq_map (parts : List Tree) :
  eachNested parts = parts.map nested
  := by
  induction parts with
  | nil => rfl
  | cons t rest ih => simp [eachNested, ih]

theorem nested_junction {kind : Junction} (hkind : kind ≠ .group) (place : Place)
    (parts : List Tree) :
  (Tree.junction place kind parts).nested = nest kind (parts.map nested)
  := by
  rw [nested, eachNested_eq_map]
  exact hkind

theorem nest_cons {kind : Junction} {rest : List Tree} (hne : rest ≠ []) (t : Tree) :
  nest kind (t :: rest) = .junction {} kind [t, nest kind rest]
  := by
  obtain ⟨u, rest, rfl⟩ := List.exists_cons_of_ne_nil hne
  rfl

/-- Nested trees may be joined to nested trees. -/
theorem nest_append {kind : Junction} (hkind : kind ≠ .group) {ts us : List Tree}
    (hts : ts ≠ []) (hus : us ≠ []) :
  Congruent Reassociates (.junction {} kind [nest kind ts, nest kind us]) (nest kind (ts ++ us))
  := by
  induction ts with
  | nil => exact absurd rfl hts
  | cons t rest ih =>
    by_cases hrest : rest = []
    · rw [hrest, List.singleton_append, nest_cons hus]
      exact .refl _
    · -- the first tree is taken out of the brackets on the left
      rw [nest_cons hrest, List.cons_append, nest_cons (List.append_ne_nil_of_left_ne_nil hrest us)]
      apply Congruent.trans (.symm (.base (.left t _ _ hkind)))
      exact .junction {} kind [t] [] (ih hrest)

/-- What replaces a part of a consolidated node is the part again when it is nested. -/
theorem nest_map_spliced {kind : Junction} (hkind : kind ≠ .group) (t : Tree) :
  nest kind ((t.spliced kind).map nested) = t.nested
  := by
  obtain ⟨place, parts, rfl, -, hspliced⟩ | hspliced := spliced_cases kind t
  · rw [hspliced, nested_junction hkind]
  · rw [hspliced]
    rfl

/-- A conjunction or disjunction of two trees can be bracketed from the right if the two trees
can. -/
theorem congruent_nested_junction {kind : Junction} (hkind : kind ≠ .group) {left right : Tree}
    (hleft : left.HasOperands) (hright : right.HasOperands)
    (ihleft : Congruent Reassociates left left.consolidate.nested)
    (ihright : Congruent Reassociates right right.consolidate.nested) :
  Congruent Reassociates (.junction {} kind [left, right])
    (Tree.junction {} kind [left, right]).consolidate.nested
  := by
  have hnested : (Tree.junction {} kind [left, right]).consolidate.nested
      = nest kind ((left.consolidate.spliced kind).map nested
        ++ (right.consolidate.spliced kind).map nested) := by
    rw [consolidate, nested_junction hkind]
    simp
  have hparts : Congruent Reassociates (.junction {} kind [left, right])
      (.junction {} kind [left.consolidate.nested, right.consolidate.nested]) :=
    .parts (.cons ihleft (.cons ihright .nil)) {} kind
  rw [hnested]
  apply hparts.trans
  rw [← nest_map_spliced hkind left.consolidate, ← nest_map_spliced hkind right.consolidate]
  apply nest_append hkind
  · simpa using hleft.consolidate.spliced_ne_nil kind
  · simpa using hright.consolidate.spliced_ne_nil kind

/-- A tree becomes the consolidated tree, bracketed from the right, when its brackets are moved. -/
theorem IsConstructed.congruent_nested {t : Tree} (h : t.IsConstructed) :
  Congruent Reassociates t t.consolidate.nested
  := by
  induction h with
  | requirement verdict term => exact .refl _
  | not _ ih => exact .negation {} ih
  | and hleft hright ihleft ihright =>
    exact congruent_nested_junction (by simp) hleft.hasOperands hright.hasOperands ihleft ihright
  | or hleft hright ihleft ihright =>
    exact congruent_nested_junction (by simp) hleft.hasOperands hright.hasOperands ihleft ihright
  | @group parts _ ih =>
    rw [Tree.group, consolidate, consolidateParts_group, nested, eachNested_eq_map]
    apply Congruent.parts
    rw [List.map_map, List.forall₂_map_right_iff, List.forall₂_same]
    exact ih

/-! ### The canonical form -/

/-- Nothing is left to consolidate in a tree in which conjunctions and disjunctions alternate. -/
theorem Alternates.consolidate_eq {t : Tree} (h : t.Alternates) :
  t.consolidate = t.bare
  := by
  induction h with
  | requirement place verdict term => rfl
  | negation place _ ih => rw [consolidate, ih, bare]
  | @junction kind parts place hconnective _ ih =>
    rw [consolidate, bare, consolidateParts_eq_flatMap, eachBare_eq_map, List.map_eq_flatMap]
    congr 1
    apply List.flatMap_congr
    intro t ht
    rw [spliced_eq_singleton, ih t ht]
    intro hkind
    rw [connective?_consolidate]
    exact hconnective hkind t ht

/-- Two trees that are built from requirements are consolidated alike exactly when they differ by
the bracketing of nested conjunctions and of nested disjunctions and by their layouts. The
consolidated tree is consolidated already, conjunctions and disjunctions alternate in it, and it
does not matter whether the tree was laid out before. -/
theorem consolidate_eq_iff_congruent
    {t u : Tree} (ht : t.bare.IsConstructed) (hu : u.bare.IsConstructed) :
  (t.consolidate = u.consolidate ↔ Congruent Reassociates t.bare u.bare)
  ∧ t.consolidate.consolidate = t.consolidate
  ∧ t.consolidate.Alternates
  ∧ t.finalize.consolidate = t.consolidate
  := by
  refine ⟨⟨?alike, ?congruent⟩, ?idempotent, alternates_consolidate t, consolidate_finalize t⟩
  case alike =>
    intro h
    have hnested : t.bare.consolidate.nested = u.bare.consolidate.nested := by
      rw [consolidate_bare, consolidate_bare, h]
    apply ht.congruent_nested.trans
    rw [hnested]
    exact hu.congruent_nested.symm
  case congruent =>
    intro h
    rw [← consolidate_bare t, ← consolidate_bare u]
    exact consolidate_eq_of_congruent h
  case idempotent => rw [(alternates_consolidate t).consolidate_eq, bare_consolidate]

/-- Brackets may be moved below a negation and in a group, also around a disjunction, but a
disjunction does not become a conjunction. -/
theorem consolidate_eq_of_moved_brackets :
  let leaf (stat : Int64) := Tree.requirement {} none (Criterion.term .none ⟨0, stat, 0, 1⟩)
  let fromRight := group [.not (.all [leaf 1, .all [.any [leaf 2, leaf 3], leaf 4]])]
  let fromLeft := group [.not (.all [.all [leaf 1, .any [leaf 2, leaf 3]], leaf 4])]
  fromRight.consolidate = fromLeft.finalize.consolidate
    ∧ ¬ Congruent Reassociates (.all [leaf 1, .any [leaf 2, leaf 3]])
      (.any [.all [leaf 1, leaf 2], leaf 3])
  := by
  intro leaf fromRight fromLeft
  have hleaf (stat : Int64) : (leaf stat).IsConstructed := .requirement _ _
  have hright : fromRight.IsConstructed := by
    apply IsConstructed.group
    simpa using .not (.and (hleaf 1) (.and (.or (hleaf 2) (hleaf 3)) (hleaf 4)))
  have hleft : fromLeft.IsConstructed := by
    apply IsConstructed.group
    simpa using .not (.and (.and (hleaf 1) (.or (hleaf 2) (hleaf 3))) (hleaf 4))
  have hall : (Tree.all [leaf 1, .any [leaf 2, leaf 3]]).IsConstructed :=
    .and (hleaf 1) (.or (hleaf 2) (hleaf 3))
  have hany : (Tree.any [.all [leaf 1, leaf 2], leaf 3]).IsConstructed :=
    .or (.and (hleaf 1) (hleaf 2)) (hleaf 3)
  constructor
  · have hbare : fromLeft.finalize.bare = fromLeft := (bare_placedAt _ _).trans hleft.bare_eq
    have hiff := (consolidate_eq_iff_congruent (t := fromRight) (u := fromLeft.finalize)
      (by rwa [hright.bare_eq]) (by rwa [hbare])).1
    rw [hiff, hright.bare_eq, hbare]
    apply Congruent.parts
    apply List.Forall₂.cons _ .nil
    exact .negation {} (.base (.left _ _ _ (by simp)))
  · intro hcongruent
    have hiff := (consolidate_eq_iff_congruent (by rwa [hall.bare_eq]) (by rwa [hany.bare_eq])).1
    rw [hall.bare_eq, hany.bare_eq] at hiff
    have hconsolidated := hiff.mpr hcongruent
    simp [consolidate, spliced, Tree.all, Tree.any] at hconsolidated

end Prerequisite.Tree
