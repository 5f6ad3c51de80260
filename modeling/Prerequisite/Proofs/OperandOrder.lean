import Prerequisite.Proofs.Conjoining
import Prerequisite.Proofs.Tree.Congruence

/-!
# The order of operands

Neither the tally of a tree nor which requirements are reported for it depends on the order of the
parts of its conjunctions, disjunctions and groups.  What is reported is reported in the order in
which the parts stand.  So when the operands of conjunctions and disjunctions are swapped in the
expression that guards an action, the action may be performed exactly when it might be performed
before, and it does not matter that a plain conjunction is read in another way than an expression.
-/

namespace Prerequisite

namespace Tally

theorem sum_perm {counts counts' : List Nat} (h : counts.Perm counts') :
  sum counts = sum counts'
  := by
  rw [sum_eq_min, sum_eq_min, h.sum_eq]

theorem all_perm {parts parts' : List Tally} (h : parts.Perm parts') :
  all parts = all parts'
  := all_congr (sum_perm (h.map Tally.met)) (sum_perm (h.map total)) fun _ => h.any_eq

theorem any_perm {parts parts' : List Tally} (h : parts.Perm parts') :
  any parts = any parts'
  := any_congr h.any_eq fun _ => h.any_eq

end Tally

namespace Tree

/-! ### Trees with their parts in another order -/

/-- The second tree is the first one, in which the parts of the root stand in another order. -/
inductive Permutes : Tree → Tree → Prop where
  | junction (place : Place) (kind : Junction) {parts parts' : List Tree} :
      parts.Perm parts' → Permutes (.junction place kind parts) (.junction place kind parts')

theorem isAdditive_perm :
  IsAdditive List.Perm
  := ⟨.nil, fun h h' => h.append h'⟩

theorem tally_junction_perm
    {parts parts' : List Tree} (h : parts.Perm parts') (place : Place) (kind : Junction) :
  (Tree.junction place kind parts').tally = (Tree.junction place kind parts).tally
  := by
  by_cases hkind : kind = .any
  · rw [hkind, tally_any, tally_any, Tally.any_perm (h.map tally)]
  · rw [tally_all place hkind, tally_all place hkind, Tally.all_perm (h.map tally)]

theorem resembles_of_permutes {t u : Tree} (h : Permutes t u) :
  t.Resembles List.Perm u
  := by
  obtain ⟨place, kind, hparts⟩ := h
  have htally := tally_junction_perm hparts place kind
  constructor
  · exact htally
  · intro negated
    rw [obstacles_junction_eq, obstacles_junction_eq, htally]
    exact (hparts.filter _).flatMap_right _

/-- Trees that differ by the order of parts are counted alike, and the same is reported for them in
another order. -/
theorem resembles_of_congruent {t u : Tree} (h : Congruent Permutes t u) :
  t.Resembles List.Perm u
  := by
  have hrefl (v : Tree) : v.Resembles List.Perm v := ⟨rfl, fun _ => .refl _⟩
  induction h with
  | base h => exact resembles_of_permutes h
  | refl t => exact hrefl t
  | symm _ ih => exact ⟨ih.tally_eq.symm, fun negated => (ih.obstacles negated).symm⟩
  | trans _ _ ih ih' =>
    exact ⟨ih'.tally_eq.trans ih.tally_eq,
      fun negated => (ih.obstacles negated).trans (ih'.obstacles negated)⟩
  | negation place _ ih => exact ih.negation isAdditive_perm place place
  | junction place kind before after _ ih =>
    apply Resembles.junction isAdditive_perm
    apply List.rel_append
    · exact List.forall₂_same.mpr fun v _ => hrefl v
    · exact .cons ih (List.forall₂_same.mpr fun v _ => hrefl v)

/-- What is reported for a tree is reported without its layout. -/
theorem mirrors_bare (t : Tree) :
  t.Mirrors id t.bare
  := by
  induction t using Tree.induction with
  | requirement place verdict term => exact mirrors_requirement (fun _ => rfl) place {}
  | negation place operand ih => exact ih.negation place {}
  | junction place kind parts ih =>
    rw [bare, eachBare_eq_map]
    apply Mirrors.junction
    rwa [List.forall₂_map_right_iff, List.forall₂_same]

theorem tally_bare (t : Tree) :
  t.bare.tally = t.tally
  := t.mirrors_bare.tally_eq

theorem shortfalls_bare (s : Snapshot) (t : Tree) :
  t.bare.shortfalls s = t.shortfalls s
  := by
  have hblockers : t.bare.blockers = t.blockers.map id := t.mirrors_bare.obstacles_eq false
  rw [shortfalls, hblockers, List.map_id, shortfalls]

end Tree

/-! ### Expressions with their operands in another order -/

namespace Postfix.Expression

/-- The expressions differ at most by the order of the operands of conjunctions and of
disjunctions. -/
inductive Reorders : Expression → Expression → Prop where
  | operand (term : Term) : Reorders (.operand term) (.operand term)
  | not {e e' : Expression} : Reorders e e' → Reorders (.not e) (.not e')
  | and {left left' right right' : Expression} : Reorders left left' → Reorders right right' →
      Reorders (.and left right) (.and left' right')
  | andSwapped {left left' right right' : Expression} :
      Reorders left left' → Reorders right right' →
      Reorders (.and left right) (.and right' left')
  | or {left left' right right' : Expression} : Reorders left left' → Reorders right right' →
      Reorders (.or left right) (.or left' right')
  | orSwapped {left left' right right' : Expression} :
      Reorders left left' → Reorders right right' →
      Reorders (.or left right) (.or right' left')

end Postfix.Expression

namespace Tree

open Postfix

theorem congruent_value_of_reorders {e e' : Expression} (h : e.Reorders e')
    (stats : Option Snapshot) :
  Congruent Permutes (e.value (meaning stats)) (e'.value (meaning stats))
  := by
  have hjoined {left left' right right' : Tree} (kind : Junction)
      (hleft : Congruent Permutes left left') (hright : Congruent Permutes right right') :
      Congruent Permutes (.junction {} kind [left, right]) (.junction {} kind [left', right']) :=
    .parts (.cons hleft (.cons hright .nil)) {} kind
  have hswapped (kind : Junction) (left right : Tree) :
      Congruent Permutes (.junction {} kind [left, right]) (.junction {} kind [right, left]) :=
    .base (.junction {} kind (.swap right left []))
  induction h with
  | operand term => exact .refl _
  | not _ ih => exact .negation {} ih
  | and _ _ ihleft ihright => exact hjoined .all ihleft ihright
  | andSwapped _ _ ihleft ihright => exact (hjoined .all ihleft ihright).trans (hswapped .all _ _)
  | or _ _ ihleft ihright => exact hjoined .any ihleft ihright
  | orSwapped _ _ ihleft ihright => exact (hjoined .any ihleft ihright).trans (hswapped .any _ _)

/-- The tree that some terms denote is counted as the tree of the expression which they spell, also
if they plainly are a conjunction. -/
theorem tally_rough_of_spells
    {terms : List Term} {e : Expression} (h : Spells (withoutSkipped 0 terms) e)
    (stats : Option Snapshot) :
  (rough stats terms).tally = (e.value (meaning stats)).tally
  := by
  have hvalue := h.value?_of_withoutSkipped (meaning stats)
  by_cases hplain : isPlainConjunction terms
  · have hand : ∀ term ∈ terms, ∀ connective,
        term.connective? = some connective → connective = .and :=
      fun term hterm _ hconnective => eq_and_of_isPlainConjunction hplain hterm hconnective
    rw [← tally_consolidate, ← tally_consolidate (e.value _)]
    apply (isFlat_consolidate_rough hand stats).tally_congr (isFlat_consolidate_of_spells hand h stats)
    rw [leaves_consolidate, leaves_consolidate, leaves_rough, leaves_of_value? hvalue]
  · rw [rough_of_value?_eq_some (Bool.eq_false_of_not_eq_true hplain) hvalue]

end Tree

open Postfix

/-- Whether an action may be performed is decided by the tally of the tree that its criteria
denote. -/
theorem canPerform_check (names : Names) (criteria : List Criterion) (s : Snapshot) :
  (check names criteria s).canPerform
    = !(Tree.rough (some s) (terms names criteria)).tally.status.isBlocking
  := by
  rw [check_eq_outcome_rough, Tree.outcome, Tree.status, Tree.tally_finalize,
    Tree.tally_consolidate]

/-- Trees that differ by the order of parts, and by their layouts, have the same counts and the same
status, and the same is missing in another order. Criteria whose expressions differ by the order of
the operands of conjunctions and disjunctions permit an action alike. -/
theorem canPerform_of_reordered :
  (∀ t u : Tree, Tree.Congruent Tree.Permutes t.bare u.bare →
    t.tally = u.tally ∧ ∀ s : Snapshot, (t.shortfalls s).Perm (u.shortfalls s))
  ∧ ∀ (names : Names) (criteria criteria' : List Criterion) (e e' : Expression),
    Spells (withoutSkipped 0 (terms names criteria)) e →
    Spells (withoutSkipped 0 (terms names criteria')) e' →
    e.Reorders e' →
    ∀ s : Snapshot, (check names criteria s).canPerform = (check names criteria' s).canPerform
  := by
  constructor
  · intro t u h
    have hresembles := Tree.resembles_of_congruent h
    constructor
    · rw [← Tree.tally_bare t, ← Tree.tally_bare u, hresembles.tally_eq]
    · intro s
      rw [← Tree.shortfalls_bare s t, ← Tree.shortfalls_bare s u]
      exact (hresembles.obstacles false).map _
  · intro names criteria criteria' e e' hspells hspells' hreorders s
    have hresembles :=
      Tree.resembles_of_congruent (Tree.congruent_value_of_reorders hreorders (some s))
    rw [canPerform_check, canPerform_check, Tree.tally_rough_of_spells hspells,
      Tree.tally_rough_of_spells hspells', hresembles.tally_eq]

/-- Alternatives are reported in the order in which they stand, also within a group, and the negation
of a choice that a conjunction satisfies in part is refused in either order. -/
theorem canPerform_of_reordered_choice :
  let fails (stat : Int64) :=
    Tree.requirement {} (some false) (Criterion.term .none ⟨0, stat, 0, 1⟩)
  let t := Tree.group [fails 1, .any [fails 2, .all [fails 3, fails 4]]]
  let u := Tree.group [.any [.all [fails 4, fails 3], fails 2], fails 1]
  let criteria : List Criterion :=
    [⟨0, 1, 0, 1⟩, ⟨1, 2, 0, 2⟩, .sentinel 2 4, ⟨3, 3, 0, 3⟩, .sentinel 4 3, .sentinel 5 42]
  let criteria' : List Criterion :=
    [⟨3, 3, 0, 3⟩, ⟨1, 2, 0, 2⟩, ⟨0, 1, 0, 1⟩, .sentinel 2 4, .sentinel 4 3, .sentinel 5 42]
  let s : Snapshot := (∅ : Snapshot).insert 1 1
  (t.shortfalls s).Perm (u.shortfalls s)
    ∧ (t.shortfalls s).map (·.stat) = [1, 2, 3, 4] ∧ (u.shortfalls s).map (·.stat) = [4, 3, 2, 1]
    ∧ (check .none criteria s).canPerform = (check .none criteria' s).canPerform
    ∧ (check .none criteria' s).canPerform = false
  := by
  intro fails t u criteria criteria' s
  refine ⟨?_, by decide, by decide, ?_, by decide⟩
  · have hall : Tree.Congruent Tree.Permutes (.all [fails 3, fails 4]) (.all [fails 4, fails 3]) :=
      .base (.junction {} .all (.swap _ _ []))
    have hany : Tree.Congruent Tree.Permutes (.any [fails 2, .all [fails 3, fails 4]])
        (.any [.all [fails 4, fails 3], fails 2]) :=
      .trans (.junction {} .any [fails 2] [] hall) (.base (.junction {} .any (.swap _ _ [])))
    have hgroup : Tree.Congruent Tree.Permutes t.bare u.bare :=
      .trans (.junction {} .group [fails 1] [] hany) (.base (.junction {} .group (.swap _ _ [])))
    exact (canPerform_of_reordered.1 t u hgroup).2 s
  · let term (c : Criterion) := c.term .none
    have hspells : Spells ([term ⟨0, 1, 0, 1⟩] ++ [term ⟨1, 2, 0, 2⟩] ++ [term (.sentinel 2 4)]
          ++ [term ⟨3, 3, 0, 3⟩] ++ [term (.sentinel 4 3)] ++ [term (.sentinel 5 42)])
        (.not (.or (.and (.operand _) (.operand _)) (.operand _))) :=
      .not (.or (.and (.operand rfl) (.operand rfl) rfl) (.operand rfl) rfl) rfl
    have hspells' : Spells ([term ⟨3, 3, 0, 3⟩] ++ ([term ⟨1, 2, 0, 2⟩] ++ [term ⟨0, 1, 0, 1⟩]
          ++ [term (.sentinel 2 4)]) ++ [term (.sentinel 4 3)] ++ [term (.sentinel 5 42)])
        (.not (.or (.operand _) (.and (.operand _) (.operand _)))) :=
      .not (.or (.operand rfl) (.and (.operand rfl) (.operand rfl) rfl) rfl) rfl
    apply canPerform_of_reordered.2 .none criteria criteria' _ _ hspells hspells'
    exact .not (.orSwapped (.andSwapped (.operand _) (.operand _)) (.operand _))

end Prerequisite
