import Prerequisite.Proofs.Consolidation
import Prerequisite.Proofs.PlainConjunction
import Prerequisite.Proofs.Verdict

/-!
# One more requirement

An operand and a conjunction after some criteria add one more requirement to them.  Whatever the
criteria are read as, and whatever they are read as with the addition, the requirement is added to
the report if it fails, and nothing else changes.  There are two cases.  Either both trees are flat,
so that their leaves alone matter, or the conjunction binds the value of the criteria and the
operand.
-/

namespace Prerequisite

namespace Postfix

/-! ### Conjoining with a value -/

/-- Nothing but conjunctions leaves the stack empty. -/
theorem connective?_eq_and_of_foldlM_depthAfter {terms : List Term} {depth : Nat}
    (h : terms.foldlM depthAfter depth = some 0) :
  depth = 0 ∧ ∀ term ∈ terms, term.connective? = some .and
  := by
  induction terms generalizing depth with
  | nil => simpa using h
  | cons term rest ih =>
    rw [List.foldlM_cons] at h
    obtain ⟨next, hnext, hrest⟩ := Option.bind_eq_some_iff.mp h
    obtain ⟨rfl, hand⟩ := ih hrest
    rw [depthAfter] at hnext
    have hterm : depth = 0 ∧ term.connective? = some .and := by
      rcases hconnective : term.connective? with _ | _ | _ | _ <;>
        simp only [hconnective] at hnext
      case none => simp at hnext
      case some.and =>
        split_ifs at hnext <;> simp only [Option.some_inj] at hnext
        · omega
        · exact ⟨hnext, rfl⟩
      case some.or =>
        split_ifs at hnext
        simp only [Option.some_inj] at hnext
        omega
      case some.not =>
        split_ifs at hnext
        simp only [Option.some_inj] at hnext
        omega
    use hterm.1
    exact List.forall_mem_cons.mpr ⟨hterm.2, hand⟩

/-- An operand and a conjunction after some terms conjoin the value of the terms, if they have one,
with the operand. -/
theorem value?_append_conjunct
    {α : Type} (m : Meaning α) {terms : List Term} {operand sign : Term}
    (hoperand : operand.isOperand) (hsign : sign.connective? = some .and)
    (hdepth : depth? terms ≠ some 0) :
  value? m (terms ++ [operand, sign])
    = (value? m terms).map fun value => m.and value (m.operand operand)
  := by
  have hnone := Option.isNone_iff_eq_none.mp hoperand
  have hlength := map_length_foldlM_step m terms []
  rw [List.length_nil, ← depth?] at hlength
  rw [← hlength] at hdepth
  rw [value?, value?, List.foldlM_append]
  rcases hrun : terms.foldlM (step m) [] with _ | _ | ⟨top, rest⟩
  · rfl
  · simp [hrun] at hdepth
  · cases rest <;> simp [step, hnone, hsign]

end Postfix

namespace Tree

/-! ### Conjoining trees -/

/-- What blocks the conjunction of two expressions with few leaves is what blocks one of them,
however it is consolidated. -/
theorem IsExpression.blockers_consolidate_all {t u : Tree} (ht : t.IsExpression)
    (hu : u.IsExpression) (hsmall : t.leafCount + u.leafCount < 2 ^ 32) :
  (Tree.all [t, u]).consolidate.blockers = t.consolidate.blockers ++ u.consolidate.blockers
  := by
  have hexpression : (Tree.all [t, u]).IsExpression := by
    apply Shaped.junction _ (by simp)
    simpa using ⟨ht, hu⟩
  have hcounts := hexpression.consolidate.isFull.countsLeaves
  have hleafCount : (Tree.all [t, u]).consolidate.leafCount < 2 ^ 32 := by
    rw [leafCount_consolidate, Tree.all, leafCount_junction]
    simpa using hsmall
  have hspliced {v : Tree} (hv : v.IsExpression) (hle : v.leafCount ≤ t.leafCount + u.leafCount) :
      (v.consolidate.spliced .all).flatMap blockers = v.consolidate.blockers := by
    apply hv.consolidate.isFull.countsLeaves.blockers_spliced _ (by simp)
    rw [leafCount_consolidate]
    exact hle.trans_lt hsmall
  rw [Tree.all, Tree.consolidate] at hcounts hleafCount ⊢
  rw [hcounts.blockers_all (by simp) hleafCount, consolidateParts_eq_flatMap, List.flatMap_cons,
    List.flatMap_cons, List.flatMap_nil, List.append_nil, List.flatMap_append,
    hspliced ht (Nat.le_add_right _ _), hspliced hu (Nat.le_add_left _ _)]

theorem blockers_ofTerm (stats : Option Snapshot) (term : Term) :
  (ofTerm stats term).blockers = if term.verdict stats = some false then [⟨false, term⟩] else []
  := by
  rw [ofTerm, blockers]

/-! ### The criteria with the addition -/

section Append

variable {terms : List Term} {operand sign : Term} (hoperand : operand.isOperand)
  (hsign : sign.connective? = some .and)
include hoperand hsign

/-- Some terms and the terms with an operand and a conjunction after them both denote flat trees, or
the conjunction binds the tree that the terms denote and the operand. -/
theorem isFlat_or_rough_append (stats : Option Snapshot) (terms : List Term) :
  (rough stats terms).consolidate.IsFlat
      ∧ (rough stats (terms ++ [operand, sign])).consolidate.IsFlat
    ∨ (rough stats terms).IsExpression
      ∧ rough stats (terms ++ [operand, sign]) = .all [rough stats terms, ofTerm stats operand]
  := by
  by_cases hand : ∀ term ∈ terms, ∀ connective,
      term.connective? = some connective → connective = .and
  · left
    use isFlat_consolidate_rough hand stats
    apply isFlat_consolidate_rough
    intro term hterm connective hconnective
    simp only [List.mem_append, List.mem_cons, List.not_mem_nil, or_false] at hterm
    obtain hterm | rfl | rfl := hterm
    · exact hand term hterm connective hconnective
    · simp [Term.isOperand, hconnective] at hoperand
    · exact Option.some.inj (hconnective.symm.trans hsign)
  · push Not at hand
    obtain ⟨term, hterm, connective, hconnective, hne⟩ := hand
    have hplain {all : List Term} (hsubset : terms ⊆ all) : isPlainConjunction all = false :=
      Bool.eq_false_iff.mpr fun h =>
        hne (eq_and_of_isPlainConjunction h (hsubset hterm) hconnective)
    have hbefore := hplain (List.Subset.refl terms)
    have hafter := hplain (List.subset_append_left terms [operand, sign])
    have hdepth : Postfix.depth? terms ≠ some 0 := by
      intro hzero
      have hsign := (Postfix.connective?_eq_and_of_foldlM_depthAfter hzero).2 term hterm
      exact hne (Option.some.inj (hconnective.symm.trans hsign))
    have hvalue := Postfix.value?_append_conjunct (meaning stats) hoperand hsign hdepth
    rcases hread : Postfix.value? (meaning stats) terms with _ | t
    · left
      rw [hread] at hvalue
      rw [rough_of_value?_eq_none hbefore hread, rough_of_value?_eq_none hafter hvalue,
        consolidate_groupOf, consolidate_groupOf]
      exact ⟨isFlat_groupOf _ _, isFlat_groupOf _ _⟩
    · right
      rw [hread] at hvalue
      rw [rough_of_value?_eq_some hbefore hread, rough_of_value?_eq_some hafter hvalue]
      exact ⟨isExpression_of_value? hread, rfl⟩

/-- The operand after some terms is reported after them if it fails. -/
theorem blockers_rough_append (stats : Option Snapshot)
    (hsmall : terms.countP Term.isOperand + 1 < 2 ^ 32) :
  (rough stats (terms ++ [operand, sign])).consolidate.blockers
    = (rough stats terms).consolidate.blockers ++ (ofTerm stats operand).blockers
  := by
  have hleaves : (rough stats (terms ++ [operand, sign])).leaves
      = (rough stats terms).leaves ++ (ofTerm stats operand).leaves := by
    rw [leaves_rough, leaves_rough, List.filter_append, List.filter_cons_of_pos hoperand,
      List.filter_cons_of_neg (by simp [Term.isOperand, hsign]), List.map_append]
    rfl
  obtain ⟨hbefore, hafter⟩ | ⟨hexpression, hrough⟩ :=
    isFlat_or_rough_append hoperand hsign stats terms
  · have hoperand : (ofTerm stats operand).IsFlat := .requirement _ _ _
    rw [hafter.blockers_eq, hbefore.blockers_eq, hoperand.blockers_eq, leaves_consolidate,
      leaves_consolidate, hleaves, List.filter_append, List.map_append]
  · have hoperand : (ofTerm stats operand).IsExpression := .requirement _ _ _
    rw [hrough, hexpression.blockers_consolidate_all hoperand]
    · rfl
    · rwa [leafCount, leaves_rough, List.length_map, ← List.countP_eq_length_filter]

end Append

end Tree

/-! ### The check of an action -/

/-- Without criteria, an action is checked as with an empty group. -/
theorem check_eq_outcome_rough (names : Names) (criteria : List Criterion) (s : Snapshot) :
  check names criteria s
    = (Tree.rough (some s) (terms names criteria)).consolidate.finalize.outcome s
  := by
  cases criteria <;> rfl

theorem unmet_check (names : Names) (criteria : List Criterion) (s : Snapshot) :
  (check names criteria s).unmet
    = (Tree.rough (some s) (terms names criteria)).consolidate.blockers.map (·.shortfall s)
  := by
  rw [check_eq_outcome_rough, Tree.outcome, Tree.shortfalls, Tree.finalize, Tree.blockers_placedAt]

/-- An action may be performed exactly when nothing is missing, if there are few operands. -/
theorem canPerform_check_iff {names : Names} {criteria : List Criterion}
    (hsmall : (terms names criteria).countP Term.isOperand < 2 ^ 32) (s : Snapshot) :
  (check names criteria s).canPerform ↔ (check names criteria s).unmet = []
  := by
  rcases hbuilt : Tree.build? names (some s) criteria with _ | t
  · simp [check, hbuilt]
  · rw [← Tree.leafCount_of_build? hbuilt] at hsmall
    rw [check, hbuilt, Tree.canPerform_outcome_iff, Status.not_isBlocking_iff,
      ← Tree.blockers_eq_nil_iff_of_occursIn hbuilt .root hsmall]
    simp [Tree.outcome, Tree.shortfalls]

section Conjunct

variable {names : Names} {criteria : List Criterion} {c : Criterion}
  (hoperand : ∀ connective, c.kind ≠ .connective connective)
  (hsmall : (terms names criteria).countP Term.isOperand < 2 ^ 32 - 1) (id : UInt32) (s : Snapshot)

theorem terms_append_conjunct :
  terms names (criteria ++ [c, .sentinel id Connective.and.code])
    = terms names criteria
      ++ [c.term names, (Criterion.sentinel id Connective.and.code).term names]
  := by
  simp [terms]

include hoperand hsmall

/-- An operand that fails is reported last. -/
theorem unmet_check_append_conjunct :
  (check names (criteria ++ [c, .sentinel id Connective.and.code]) s).unmet
    = (check names criteria s).unmet
      ++ if (c.term names).verdict (some s) = some false then
          [Blocker.shortfall s ⟨false, c.term names⟩]
        else []
  := by
  have hterm : (c.term names).isOperand := Criterion.isOperand_term_iff.mpr hoperand
  rw [unmet_check, unmet_check, terms_append_conjunct,
    Tree.blockers_rough_append hterm rfl _ (by omega), List.map_append, Tree.blockers_ofTerm]
  split_ifs <;> rfl

theorem canPerform_check_append_conjunct :
  (check names (criteria ++ [c, .sentinel id Connective.and.code]) s).canPerform
    = ((check names criteria s).canPerform && (c.term names).verdict (some s) ≠ some false)
  := by
  have hterm : (c.term names).isOperand := Criterion.isOperand_term_iff.mpr hoperand
  have hsign : ¬ ((Criterion.sentinel id Connective.and.code).term names).isOperand := by
    rw [Criterion.isOperand_term_iff]
    exact fun h => h .and rfl
  have hcount : (terms names (criteria ++ [c, .sentinel id Connective.and.code])).countP
      Term.isOperand = (terms names criteria).countP Term.isOperand + 1 := by
    rw [terms_append_conjunct, List.countP_append, List.countP_cons_of_pos hterm,
      List.countP_cons_of_neg hsign, List.countP_nil]
  rw [Bool.eq_iff_iff, canPerform_check_iff (by omega),
    unmet_check_append_conjunct hoperand hsmall, Bool.and_eq_true, canPerform_check_iff (by omega)]
  simp

theorem check_append_eq :
  check names (criteria ++ [c, .sentinel id Connective.and.code]) s
    = ⟨(check names criteria s).canPerform && (c.term names).verdict (some s) ≠ some false,
      (check names criteria s).unmet
        ++ if (c.term names).verdict (some s) = some false then
            [Blocker.shortfall s ⟨false, c.term names⟩]
          else []⟩
  := by
  rw [← canPerform_check_append_conjunct hoperand hsmall id,
    ← unmet_check_append_conjunct hoperand hsmall id]

end Conjunct

/-- Let an operand and a conjunction follow after the criteria of an action, which have fewer
operands than can be counted. Then the action may be performed if it might be performed before and
the operand does not fail, and if it fails, then it is reported after what was reported before, with
its stat and its bound, with the current amount of the stat and with the sign of the comparison. An
operand that is no comparison does not change the outcome. -/
theorem check_append_conjunct
    {names : Names} {criteria : List Criterion} {c : Criterion}
    (hoperand : ∀ connective, c.kind ≠ .connective connective)
    (hsmall : (terms names criteria).countP Term.isOperand < 2 ^ 32 - 1) (id : UInt32)
    (s : Snapshot) :
  check names (criteria ++ [c, .sentinel id Connective.and.code]) s
    = ⟨(check names criteria s).canPerform && (c.term names).verdict (some s) ≠ some false,
      (check names criteria s).unmet
        ++ if (c.term names).verdict (some s) = some false then
            [{ stat := c.stat
               statName := c.statName names
               required := c.displayValue
               current := s.reading c.stat
               operator := c.symbol }]
          else []⟩
  ∧ ((∀ comparison, c.kind ≠ .stat (some comparison)) →
      check names (criteria ++ [c, .sentinel id Connective.and.code]) s = check names criteria s)
  := by
  have hcheck := check_append_eq hoperand hsmall id s
  use hcheck
  intro hkind
  have hnone : (c.term names).verdict (some s) = none := by
    rw [Term.verdict_eq_none_iff, Option.eq_none_iff_forall_ne_some]
    exact fun comparison h => hkind comparison (Term.comparison?_eq_some_iff.mp h)
  simp [hcheck, hnone]

/-- After a disjunction that does not hold, a comparison that does not hold is reported last, and a
state gate does not matter. -/
theorem check_append_conjunct_of_disjunction :
  let criteria : List Criterion := [⟨0, 1, 0, 1⟩, ⟨1, 2, 0, 2⟩, .sentinel 2 3]
  (terms .none criteria).countP Term.isOperand < 2 ^ 32 - 1
    ∧ (check .none (criteria ++ [⟨3, 3, 0, 3⟩, .sentinel 4 Connective.and.code]) ∅).unmet
      = (check .none criteria ∅).unmet ++ [⟨3, "Stat 3", 3, 0, "="⟩]
    ∧ check .none (criteria ++ [⟨3, 0, 26, 1⟩, .sentinel 4 Connective.and.code]) ∅
      = check .none criteria ∅
  := by
  intro criteria
  have hsmall : (terms .none criteria).countP Term.isOperand < 2 ^ 32 - 1 := by decide
  refine ⟨hsmall, ?_, ?_⟩
  · have hoperand : ∀ connective, (Criterion.mk 3 3 0 3).kind ≠ .connective connective :=
      fun _ h => nomatch h
    have hfails : (Criterion.term .none ⟨3, 3, 0, 3⟩).verdict (some ∅) = some false := rfl
    rw [(check_append_conjunct hoperand hsmall 4 ∅).1, hfails, if_pos rfl]
    rfl
  · have hoperand : ∀ connective, (Criterion.mk 3 0 26 1).kind ≠ .connective connective :=
      fun _ h => nomatch h
    exact (check_append_conjunct hoperand hsmall 4 ∅).2 fun _ h => nomatch h

end Prerequisite
