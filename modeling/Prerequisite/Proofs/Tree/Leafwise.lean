import Prerequisite.Proofs.Tree.Shape

/-!
# Changing the leaves of a tree

A map that changes the leaves and the places of a tree, and nothing else, commutes with
consolidation.  Let it take the leaf of a term to the leaf of another term, where connectives
correspond to the same connectives.  Then it takes the tree that some terms denote to the tree that
the other terms denote.
-/

namespace Prerequisite

namespace Postfix

/-- The meaning of operands that first become other terms. -/
def Meaning.after {α : Type} (m : Meaning α) (rename : Term → Term) : Meaning α where
  operand term := m.operand (rename term)
  not := m.not
  and := m.and
  or := m.or

/-- Terms that stand for the same connectives are read with the same stack. -/
theorem value?_map_terms
    {α : Type} {rename : Term → Term} (h : ∀ term, (rename term).connective? = term.connective?)
    (m : Meaning α) (terms : List Term) :
  value? m (terms.map rename) = value? (m.after rename) terms
  := by
  have hstep : (fun stack term => step m stack (rename term)) = step (m.after rename) := by
    funext stack term
    unfold step
    rw [h]
    rfl
  rw [value?, value?, List.foldlM_map, hstep]

end Postfix

namespace Tree

/-- The map changes leaves and places, and nothing else. A tree without a layout stays without
one. -/
structure IsLeafwise (place : Place → Place) (f : Tree → Tree) : Prop where
  default : place {} = {}
  requirement : ∀ verdict term, ∃ verdict' term', ∀ p,
    f (.requirement p verdict term) = .requirement (place p) verdict' term'
  negation : ∀ p operand, f (.negation p operand) = .negation (place p) (f operand)
  junction : ∀ p kind parts, f (.junction p kind parts) = .junction (place p) kind (parts.map f)

variable {place : Place → Place} {f : Tree → Tree}

/-- Whether a part is replaced by its own parts does not depend on the leaves. -/
theorem IsLeafwise.map_spliced (hf : IsLeafwise place f) (kind : Junction) (t : Tree) :
  (t.spliced kind).map f = (f t).spliced kind
  := by
  cases t with
  | requirement p verdict term =>
    obtain ⟨verdict', term', hrequirement⟩ := hf.requirement verdict term
    rw [hrequirement]
    exact congrArg (fun t => [t]) (hrequirement p)
  | negation p operand =>
    rw [hf.negation]
    exact congrArg (fun t => [t]) (hf.negation p operand)
  | junction p k parts =>
    rw [hf.junction, spliced, spliced]
    split
    · rfl
    · rw [List.map_singleton, hf.junction]

theorem IsLeafwise.consolidate (hf : IsLeafwise place f) (t : Tree) :
  f t.consolidate = (f t).consolidate
  := by
  induction t using Tree.induction with
  | requirement p verdict term =>
    obtain ⟨verdict', term', hrequirement⟩ := hf.requirement verdict term
    rw [Tree.consolidate, hrequirement, hrequirement, Tree.consolidate, hf.default]
  | negation p operand ih =>
    rw [Tree.consolidate, Tree.not, hf.negation, hf.negation, Tree.consolidate, Tree.not, ih,
      hf.default]
  | junction p kind parts ih =>
    rw [Tree.consolidate, hf.junction, hf.junction, Tree.consolidate, consolidateParts_eq_flatMap,
      consolidateParts_eq_flatMap, List.map_flatMap, List.flatMap_map, hf.default]
    congr 1
    apply List.flatMap_congr
    intro t ht
    rw [hf.map_spliced, ih t ht]

/-- A map that does not change places commutes with layouts. -/
theorem IsLeafwise.placedAt (hf : IsLeafwise id f) (p : Place) (t : Tree) :
  f (t.placedAt p) = (f t).placedAt p
  := by
  induction t using Tree.induction generalizing p with
  | requirement q verdict term =>
    obtain ⟨verdict', term', hrequirement⟩ := hf.requirement verdict term
    rw [Tree.placedAt, hrequirement, hrequirement]
    rfl
  | negation q operand ih => rw [Tree.placedAt, hf.negation, hf.negation, ih, Tree.placedAt, id]
  | junction q kind parts ih =>
    have hsiblings (level : Nat) :
        (siblingsAt level parts).map f = siblingsAt level (parts.map f) := by
      induction parts with
      | nil => rfl
      | cons t rest ihrest =>
        rw [siblingsAt, List.map_cons, ih t List.mem_cons_self, List.map_cons, siblingsAt,
          List.isEmpty_map, ihrest fun u hu => ih u (List.mem_cons_of_mem _ hu)]
    rw [Tree.placedAt, hf.junction, hf.junction, hsiblings, Tree.placedAt, id]

/-! ### The tree of some terms -/

section Terms

variable {stats stats' : Option Snapshot} {rename : Term → Term}

/-- The connectives build trees whose leaves are changed part by part. -/
theorem IsLeafwise.respects (hf : IsLeafwise place f)
    (hoperand : ∀ term, f (ofTerm stats term) = ofTerm stats' (rename term)) (terms : List Term) :
  Postfix.Respects (fun t u => f t = u) (meaning stats) ((meaning stats').after rename) terms
  := by
  constructor
  · intro term _ _
    exact hoperand term
  · rintro operand _ rfl
    have hnegation := hf.negation {} operand
    rwa [hf.default] at hnegation
  · rintro left right _ _ rfl rfl
    have hjunction := hf.junction {} .all [left, right]
    rwa [hf.default] at hjunction
  · rintro left right _ _ rfl rfl
    have hjunction := hf.junction {} .any [left, right]
    rwa [hf.default] at hjunction

theorem IsLeafwise.groupOf (hf : IsLeafwise place f)
    (hoperand : ∀ term, f (ofTerm stats term) = ofTerm stats' (rename term))
    (hconnective : ∀ term, (rename term).connective? = term.connective?) (terms : List Term) :
  f (groupOf stats terms) = Tree.groupOf stats' (terms.map rename)
  := by
  have hfilter : (terms.map rename).filter Term.isOperand
      = (terms.filter Term.isOperand).map rename := by
    rw [List.filter_map]
    congr 1
    apply List.filter_congr
    intro term _
    rw [Function.comp_apply, Term.isOperand, hconnective, Term.isOperand]
  rw [Tree.groupOf, group, hf.junction, hf.default, Tree.groupOf, group, hfilter, List.map_map,
    List.map_map]
  congr 1
  apply List.map_congr_left
  intro term _
  exact hoperand term

/-- The tree that some terms denote becomes the tree that the other terms denote. -/
theorem IsLeafwise.rough (hf : IsLeafwise place f)
    (hoperand : ∀ term, f (ofTerm stats term) = ofTerm stats' (rename term))
    (hconnective : ∀ term, (rename term).connective? = term.connective?) {terms : List Term}
    (hplain : isPlainConjunction (terms.map rename) = isPlainConjunction terms) :
  f (rough stats terms) = Tree.rough stats' (terms.map rename)
  := by
  have hgroup := hf.groupOf hoperand hconnective terms
  rw [Tree.rough, Tree.rough, hplain]
  split
  · exact hgroup
  · rw [Postfix.value?_map_terms hconnective, ← Postfix.value?_map (hf.respects hoperand terms)]
    rcases Postfix.value? (meaning stats) terms with _ | t
    · exact hgroup
    · rfl

end Terms

end Tree

end Prerequisite
