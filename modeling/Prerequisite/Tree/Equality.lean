import Prerequisite.Tree.Basic

/-!
# Equality of trees

Equality of trees is decidable.  It compares the terms, the verdicts, the shape and the
places of all nodes.
-/

namespace Prerequisite.Tree

mutual

/-- A decision whether two trees are equal. -/
def decideEq : (s t : Tree) → Decidable (s = t)
  | .requirement p v a, .requirement q w b =>
    decidable_of_iff (p = q ∧ v = w ∧ a = b) (by simp)
  | .negation p s, .negation q t =>
    have := decideEq s t
    decidable_of_iff (p = q ∧ s = t) (by simp)
  | .junction p k ss, .junction q l ts =>
    have := decideEqList ss ts
    decidable_of_iff (p = q ∧ k = l ∧ ss = ts) (by simp)
  | .requirement _ _ _, .negation _ _ => isFalse (by simp)
  | .requirement _ _ _, .junction _ _ _ => isFalse (by simp)
  | .negation _ _, .requirement _ _ _ => isFalse (by simp)
  | .negation _ _, .junction _ _ _ => isFalse (by simp)
  | .junction _ _ _, .requirement _ _ _ => isFalse (by simp)
  | .junction _ _ _, .negation _ _ => isFalse (by simp)

/-- A decision whether two lists of trees are equal. -/
def decideEqList : (ss ts : List Tree) → Decidable (ss = ts)
  | [], [] => isTrue rfl
  | [], _ :: _ => isFalse (by simp)
  | _ :: _, [] => isFalse (by simp)
  | s :: ss, t :: ts =>
    have := decideEq s t
    have := decideEqList ss ts
    decidable_of_iff (s = t ∧ ss = ts) (by simp)

end

instance : DecidableEq Tree := decideEq

end Prerequisite.Tree
