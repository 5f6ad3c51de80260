import Prerequisite.Proofs.Tree.Leafwise

/-!
# Congruences of trees

The least congruence that contains a relation between trees relates two trees if one becomes the
other by replacing subtrees that are related.  What the places of the nodes are does not matter to
most of what is said about a tree, so that trees are compared when they are bare, that is, without
a layout.  Consolidation yields bare trees, and it yields the same tree whatever the layout was.
-/

namespace Prerequisite.Tree

/-! ### The least congruence -/

/-- The least congruence that contains a relation. -/
inductive Congruent (r : Tree → Tree → Prop) : Tree → Tree → Prop where
  | base {t u : Tree} : r t u → Congruent r t u
  | refl (t : Tree) : Congruent r t t
  | symm {t u : Tree} : Congruent r t u → Congruent r u t
  | trans {t u v : Tree} : Congruent r t u → Congruent r u v → Congruent r t v
  | negation {t u : Tree} (place : Place) :
      Congruent r t u → Congruent r (.negation place t) (.negation place u)
  | junction {t u : Tree} (place : Place) (kind : Junction) (before after : List Tree) :
      Congruent r t u →
      Congruent r (.junction place kind (before ++ t :: after))
        (.junction place kind (before ++ u :: after))

/-- All parts of a node may be replaced at once. -/
theorem Congruent.parts
    {r : Tree → Tree → Prop} {ts us : List Tree} (h : List.Forall₂ (Congruent r) ts us)
    (place : Place) (kind : Junction) :
  Congruent r (.junction place kind ts) (.junction place kind us)
  := by
  suffices hbehind : ∀ before : List Tree,
      Congruent r (.junction place kind (before ++ ts)) (.junction place kind (before ++ us)) from
    hbehind []
  induction h with
  | nil =>
    intro before
    exact .refl _
  | @cons t u ts us hpart _ ih =>
    intro before
    apply Congruent.trans (.junction place kind before ts hpart)
    simpa using ih (before ++ [u])

/-! ### Trees without a layout -/

mutual

/-- The tree without a layout. -/
def bare : Tree → Tree
  | .requirement _ verdict term => .requirement {} verdict term
  | .negation _ operand => operand.bare.not
  | .junction _ kind parts => .junction {} kind (eachBare parts)

/-- Some trees without a layout. -/
def eachBare : List Tree → List Tree
  | [] => []
  | t :: rest => t.bare :: eachBare rest

end

@[simp]
theorem eachBare_eq_map (parts : List Tree) :
  eachBare parts = parts.map bare
  := by
  induction parts with
  | nil => rfl
  | cons t rest ih => simp [eachBare, ih]

theorem isLeafwise_bare : IsLeafwise (fun _ => {}) bare where
  default := rfl
  requirement verdict term := ⟨verdict, term, fun _ => rfl⟩
  negation _ _ := rfl
  junction p kind parts := by rw [bare, eachBare_eq_map]

@[simp]
theorem bare_placedAt (place : Place) (t : Tree) :
  (t.placedAt place).bare = t.bare
  := by
  induction t using Tree.induction generalizing place with
  | requirement _ verdict term => rfl
  | negation _ operand ih => rw [placedAt, bare, ih, bare]
  | junction _ kind parts ih =>
    rw [placedAt, bare, bare, eachBare_eq_map, eachBare_eq_map,
      map_siblingsAt fun t ht place => ih t ht place]

/-- A tree that is built from requirements has no layout. -/
theorem IsConstructed.bare_eq {t : Tree} (h : t.IsConstructed) :
  t.bare = t
  := by
  induction h with
  | requirement verdict term => rfl
  | not _ ih => rw [Tree.not, bare, ih, Tree.not]
  | and _ _ hleft hright => simp [Tree.all, bare, hleft, hright]
  | or _ _ hleft hright => simp [Tree.any, bare, hleft, hright]
  | group _ ih => rw [Tree.group, bare, eachBare_eq_map, List.map_congr_left ih, List.map_id']

/-! ### Layouts and consolidation -/

/-- A consolidated tree has no layout. -/
@[simp]
theorem bare_consolidate (t : Tree) :
  t.consolidate.bare = t.consolidate
  := by
  induction t using Tree.induction with
  | requirement _ verdict term => rfl
  | negation _ operand ih => rw [consolidate, Tree.not, bare, ih, Tree.not]
  | junction _ kind parts ih =>
    rw [consolidate, bare, eachBare_eq_map, consolidateParts_eq_flatMap, List.map_flatMap]
    congr 1
    apply List.flatMap_congr
    intro t ht
    rw [isLeafwise_bare.map_spliced, ih t ht]

/-- Consolidation does not depend on the layout of the tree. -/
theorem consolidate_bare (t : Tree) :
  t.bare.consolidate = t.consolidate
  := by
  rw [← isLeafwise_bare.consolidate, bare_consolidate]

theorem consolidate_finalize (t : Tree) :
  t.finalize.consolidate = t.consolidate
  := by
  rw [finalize, ← consolidate_bare, bare_placedAt, consolidate_bare]

end Prerequisite.Tree
