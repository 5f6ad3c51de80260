import Prerequisite.Proofs.Blockers
import Prerequisite.Proofs.Tree.Positive

/-!
# Conjuncts

The conjuncts of a tree are what its conjunctions and groups join: the trees that are reached from
the root through conjunctions and groups alone.  If a tree contains no negations and all of its
requirements are decided, then it counts its conjuncts, and a conjunct counts as met as soon as one
of its requirements holds.  So the action may be performed when each conjunct contains a requirement
that holds, and what is missing are the requirements of the other conjuncts.
-/

namespace Prerequisite

namespace Tree

/-! ### Conjuncts -/

mutual

/-- The trees that are reached from the root through conjunctions and groups alone. -/
def conjuncts : Tree → List Tree
  | .requirement place verdict term => [.requirement place verdict term]
  | .negation place operand => [.negation place operand]
  | .junction place .any parts => [.junction place .any parts]
  | .junction _ _ parts => conjunctsOf parts

/-- The conjuncts of some trees. -/
def conjunctsOf : List Tree → List Tree
  | [] => []
  | t :: rest => t.conjuncts ++ conjunctsOf rest

end

theorem conjunctsOf_eq_flatMap (parts : List Tree) :
  conjunctsOf parts = parts.flatMap conjuncts
  := by
  induction parts with
  | nil => rfl
  | cons t rest ih => rw [conjunctsOf, ih, List.flatMap_cons]

theorem conjuncts_all (place : Place) {kind : Junction} (hkind : kind ≠ .any)
    (parts : List Tree) :
  (Tree.junction place kind parts).conjuncts = parts.flatMap conjuncts
  := by
  rw [conjuncts, conjunctsOf_eq_flatMap]
  exact hkind

/-- The leaves of a tree are those of its conjuncts. -/
theorem flatMap_leaves_conjuncts (t : Tree) :
  t.conjuncts.flatMap leaves = t.leaves
  := by
  induction t using Tree.induction with
  | requirement place verdict term => rw [conjuncts, List.flatMap_singleton]
  | negation place operand _ => rw [conjuncts, List.flatMap_singleton]
  | junction place kind parts ih =>
    by_cases hkind : kind = .any
    · subst hkind
      rw [conjuncts, List.flatMap_singleton]
    · rw [conjuncts_all place hkind, List.flatMap_assoc, leaves, leavesOf_eq_flatMap]
      exact List.flatMap_congr ih

/-- A requirement in the tree holds. -/
def someHolds (t : Tree) : Bool := t.leaves.any (·.2 = some true)

theorem someHolds_junction (place : Place) (kind : Junction) (parts : List Tree) :
  (Tree.junction place kind parts).someHolds = parts.any someHolds
  := by
  rw [someHolds, leaves, leavesOf_eq_flatMap, List.any_flatMap]
  rfl

/-- A requirement in the tree holds exactly when one in a conjunct does. -/
theorem any_someHolds_conjuncts (t : Tree) :
  t.conjuncts.any someHolds = t.someHolds
  := by
  rw [someHolds, ← flatMap_leaves_conjuncts, List.any_flatMap]
  rfl

/-- The number of conjuncts in which a requirement holds. -/
def heldCount (t : Tree) : Nat := t.conjuncts.countP someHolds

theorem heldCount_pos_iff {t : Tree} :
  0 < t.heldCount ↔ t.someHolds
  := by
  rw [heldCount, List.countP_pos_iff, ← List.any_eq_true, any_someHolds_conjuncts]

theorem heldCount_of_conjuncts_eq {t : Tree} (h : t.conjuncts = [t]) :
  t.heldCount = if t.someHolds then 1 else 0
  := by
  rw [heldCount, h, List.countP_singleton]

theorem heldCount_all (place : Place) {kind : Junction} (hkind : kind ≠ .any)
    (parts : List Tree) :
  (Tree.junction place kind parts).heldCount = (parts.map heldCount).sum
  := by
  rw [heldCount, conjuncts_all place hkind, List.countP_flatMap]
  rfl

/-! ### Decided trees -/

/-- Every requirement of the tree is decided. -/
def IsDecided (t : Tree) : Prop := ∀ leaf ∈ t.leaves, leaf.2 ≠ none

theorem IsDecided.of_mem
    {place : Place} {kind : Junction} {part : Tree} {parts : List Tree}
    (h : (Tree.junction place kind parts).IsDecided) (hpart : part ∈ parts) :
  part.IsDecided
  := by
  intro leaf hleaf
  apply h
  exact mem_leaves_junction_iff.mpr ⟨part, hpart, hleaf⟩

/-- The tree counts its conjuncts and, as met, those in which a requirement holds. -/
structure CountsConjuncts (t : Tree) : Prop where
  total_eq : t.tally.total = t.conjuncts.length
  met_eq : t.tally.met = t.heldCount
  status_ne_unknown : t.status ≠ .unknown

theorem CountsConjuncts.met_pos_iff {t : Tree} (h : t.CountsConjuncts) :
  0 < t.tally.met ↔ t.someHolds
  := by
  rw [h.met_eq, heldCount_pos_iff]

/-- A tree that counts its conjuncts is unmet exactly when no requirement in it holds. -/
theorem CountsConjuncts.status_eq_unmet_iff {t : Tree} (h : t.CountsConjuncts) :
  t.status = .unmet ↔ ¬ t.someHolds
  := by
  rw [← h.met_pos_iff]
  constructor
  · intro hunmet
    rw [met_eq_zero_of_unmet hunmet]
    simp
  · intro hzero
    have hconsistent := t.isConsistent_tally
    have hunknown := h.status_ne_unknown
    rcases hstatus : t.status
    case met => exact absurd (hconsistent.met_pos_of_met hstatus) hzero
    case unmet => rfl
    case partly => exact absurd (hconsistent.met_pos_of_partly hstatus) hzero
    case unknown => exact absurd hstatus hunknown

theorem countsConjuncts_requirement {place : Place} {verdict : Option Bool} {term : Term}
    (h : (Tree.requirement place verdict term).IsDecided) :
  (Tree.requirement place verdict term).CountsConjuncts
  := by
  have hverdict : verdict ≠ none := h (term, verdict) (List.mem_singleton_self _)
  have hheld := heldCount_of_conjuncts_eq (conjuncts.eq_1 place verdict term)
  constructor
  · rfl
  · rw [hheld, someHolds, leaves]
    rcases verdict with _ | _ | _ <;> simp [tally, Tally.ofStatus, Status.ofVerdict]
  · rw [status_requirement]
    rcases verdict with _ | _ | _ <;> simp_all [Status.ofVerdict]

section Junction

variable {place : Place} {kind : Junction} {parts : List Tree}

/-- A part satisfies a disjunction exactly when a requirement in it holds. -/
theorem CountsConjuncts.satisfies_iff {t : Tree} (h : t.CountsConjuncts) :
  t.tally.satisfies ↔ t.someHolds
  := by
  have hunmet := h.status_eq_unmet_iff
  have hunknown := h.status_ne_unknown
  rw [Tally.satisfies_iff, ← status, h.met_pos_iff]
  cases hstatus : t.status <;> simp_all

/-- A disjunction is met or unmet, as a requirement in it holds or none does. -/
theorem tally_any_of_countsConjuncts (place : Place)
    (h : ∀ part ∈ parts, part.CountsConjuncts) :
  (Tree.junction place .any parts).tally
    = if (Tree.junction place .any parts).someHolds then ⟨1, 1, .met⟩ else ⟨0, 1, .unmet⟩
  := by
  have hsatisfies : (parts.map tally).any Tally.satisfies = parts.any someHolds := by
    rw [List.any_map, Bool.eq_iff_iff, List.any_eq_true, List.any_eq_true]
    apply exists_congr
    intro part
    apply and_congr_right
    intro hpart
    exact (h part hpart).satisfies_iff
  have hunknown : (parts.map tally).any (·.status = .unknown) = false := by
    rw [List.any_map, List.any_eq_false]
    intro part hpart
    simpa [status] using (h part hpart).status_ne_unknown
  rw [tally_any, Tally.any, hsatisfies, hunknown, someHolds_junction]
  rfl

theorem countsConjuncts_any (h : ∀ part ∈ parts, part.CountsConjuncts) :
  (Tree.junction place .any parts).CountsConjuncts
  := by
  have htally := tally_any_of_countsConjuncts place h
  have hheld := heldCount_of_conjuncts_eq (conjuncts.eq_3 place parts)
  constructor
  · rw [tally_any, Tally.total_any, conjuncts]
    rfl
  · rw [htally, hheld]
    split <;> rfl
  · rw [status, htally]
    split <;> simp

theorem countsConjuncts_all (hkind : kind ≠ .any)
    (hfull : (Tree.junction place kind parts).IsFull)
    (hsmall : (Tree.junction place kind parts).leafCount < 2 ^ 32)
    (h : ∀ part ∈ parts, part.CountsConjuncts) :
  (Tree.junction place kind parts).CountsConjuncts
  := by
  have hparts : ∀ part ∈ parts, part.IsFull := fun _ => Shaped.of_mem hfull
  have hlimit := IsFull.sum_total_le hparts hsmall
  constructor
  · rw [tally_all place hkind, conjuncts_all place hkind, List.length_flatMap]
    simp only [Tally.all]
    rw [Tally.sum_eq_sum hlimit, List.map_map]
    congr 1
    apply List.map_congr_left
    intro part hpart
    exact (h part hpart).total_eq
  · rw [tally_all place hkind, heldCount_all place hkind]
    simp only [Tally.all]
    have hle : ((parts.map tally).map Tally.met).sum ≤ ((parts.map tally).map Tally.total).sum := by
      apply Tally.sum_met_le_sum_total
      exact List.forall_mem_map.mpr fun part _ => part.isConsistent_tally.met_le_total
    rw [Tally.sum_eq_sum (hle.trans hlimit), List.map_map]
    congr 1
    apply List.map_congr_left
    intro part hpart
    exact (h part hpart).met_eq
  · -- a conjunction is unknown if nothing blocks, but then all its decided parts are met
    intro hunknown
    have hmet : (Tree.junction place kind parts).status = .met := by
      apply IsFull.status_eq_met_of_forall hkind hfull
      intro part hpart
      have hpasses := not_isBlocking_of_all_unknown hkind hunknown part hpart
      obtain hmet | hunknown := (Status.not_isBlocking_iff _).mp hpasses
      · exact hmet
      · exact absurd hunknown (h part hpart).status_ne_unknown
    simp [hunknown] at hmet

end Junction

/-- A tree without negations of which every requirement is decided counts its conjuncts, if it has
few leaves. -/
theorem IsPositive.countsConjuncts {t : Tree} (hpositive : t.IsPositive) (hfull : t.IsFull)
    (hdecided : t.IsDecided) (hsmall : t.leafCount < 2 ^ 32) :
  t.CountsConjuncts
  := by
  induction hpositive with
  | requirement place verdict term => exact countsConjuncts_requirement hdecided
  | @junction parts place kind _ ih =>
    have hparts : ∀ part ∈ parts, part.IsFull := fun _ => Shaped.of_mem hfull
    have hcounts : ∀ part ∈ parts, part.CountsConjuncts := by
      intro part hpart
      apply ih part hpart (hparts part hpart) (hdecided.of_mem hpart)
      exact (leafCount_le_of_mem place kind hpart).trans_lt hsmall
    by_cases hkind : kind = .any
    · subst hkind
      exact countsConjuncts_any hcounts
    · exact countsConjuncts_all hkind hfull hsmall hcounts

/-! ### What is missing -/

/-- The requirements of the conjuncts of which no requirement holds. -/
def lacking (t : Tree) : List (Term × Option Bool) :=
  (t.conjuncts.filter fun c => !c.someHolds).flatMap leaves

theorem lacking_of_not_someHolds {t : Tree} (h : ¬ t.someHolds) :
  t.lacking = t.leaves
  := by
  have hfilter : t.conjuncts.filter (fun c => !c.someHolds) = t.conjuncts := by
    rw [List.filter_eq_self]
    intro c hc
    rw [Bool.not_eq_true']
    rw [← any_someHolds_conjuncts, List.any_eq_true] at h
    exact Bool.eq_false_of_not_eq_true fun hholds => h ⟨c, hc, hholds⟩
  rw [lacking, hfilter, flatMap_leaves_conjuncts]

theorem lacking_of_conjuncts_eq {t : Tree} (hconjuncts : t.conjuncts = [t]) (h : t.someHolds) :
  t.lacking = []
  := by
  simp [lacking, hconjuncts, h]

theorem lacking_all (place : Place) {kind : Junction} (hkind : kind ≠ .any) (parts : List Tree) :
  (Tree.junction place kind parts).lacking = parts.flatMap lacking
  := by
  rw [lacking, conjuncts_all place hkind, List.filter_flatMap, List.flatMap_assoc]
  rfl

/-- A disjunction in which no requirement holds is blocked by all of them, and any other one by
none. -/
theorem blockers_any_eq_of_countsConjuncts
    (place : Place) {parts : List Tree} (hcounts : ∀ part ∈ parts, part.CountsConjuncts)
    (h : ∀ part ∈ parts, part.blockers = part.lacking.map fun leaf => ⟨false, leaf.1⟩) :
  (Tree.junction place .any parts).blockers
    = (Tree.junction place .any parts).lacking.map fun leaf => ⟨false, leaf.1⟩
  := by
  have htally := tally_any_of_countsConjuncts place hcounts
  rw [blockers_any, status, htally]
  by_cases hholds : (Tree.junction place .any parts).someHolds
  · rw [lacking_of_conjuncts_eq (conjuncts.eq_3 place parts) hholds, if_pos hholds]
    rfl
  · rw [lacking_of_not_someHolds hholds, if_neg hholds, if_pos rfl, leaves, leavesOf_eq_flatMap,
      List.map_flatMap]
    apply List.flatMap_congr
    intro part hpart
    rw [h part hpart, lacking_of_not_someHolds]
    intro hpartholds
    rw [someHolds_junction, List.any_eq_true] at hholds
    exact hholds ⟨part, hpart, hpartholds⟩

/-- A tree without negations of which every requirement is decided is blocked by the requirements of
the conjuncts of which no requirement holds. -/
theorem IsPositive.blockers_eq {t : Tree} (hpositive : t.IsPositive) (hfull : t.IsFull)
    (hdecided : t.IsDecided) (hsmall : t.leafCount < 2 ^ 32) :
  t.blockers = t.lacking.map fun leaf => ⟨false, leaf.1⟩
  := by
  induction hpositive with
  | requirement place verdict term =>
    have hverdict : verdict ≠ none := hdecided (term, verdict) (List.mem_singleton_self _)
    rcases verdict with _ | _ | _
    · exact absurd rfl hverdict
    · rfl
    · rfl
  | @junction parts place kind hparts ih =>
    have hfull' : ∀ part ∈ parts, part.IsFull := fun _ => Shaped.of_mem hfull
    have hsmall' : ∀ part ∈ parts, part.leafCount < 2 ^ 32 := fun part hpart =>
      (leafCount_le_of_mem place kind hpart).trans_lt hsmall
    have hblockers : ∀ part ∈ parts, part.blockers
        = part.lacking.map fun leaf => ⟨false, leaf.1⟩ := fun part hpart =>
      ih part hpart (hfull' part hpart) (hdecided.of_mem hpart) (hsmall' part hpart)
    by_cases hkind : kind = .any
    · subst hkind
      apply blockers_any_eq_of_countsConjuncts place _ hblockers
      intro part hpart
      apply (hparts part hpart).countsConjuncts (hfull' part hpart) (hdecided.of_mem hpart)
        (hsmall' part hpart)
    · rw [(IsFull.countsLeaves hfull).blockers_all hkind hsmall, lacking_all place hkind,
        List.map_flatMap]
      exact List.flatMap_congr hblockers

/-- Criteria without a negation whose operands are comparisons have a tree of which every
requirement is decided. -/
theorem isDecided_of_build?
    {names : Names} {criteria : List Criterion} {s : Snapshot} {t : Tree}
    (hkinds : ∀ c ∈ criteria, c.kind = .connective .and ∨ c.kind = .connective .or
      ∨ ∃ comparison, c.kind = .stat (some comparison))
    (hbuilt : build? names (some s) criteria = some t) :
  t.IsDecided
  := by
  intro leaf hleaf
  rw [leaves_of_build? hbuilt] at hleaf
  obtain ⟨term, hterm, rfl⟩ := List.mem_map.mp hleaf
  obtain ⟨hterm, hoperand⟩ := List.mem_filter.mp hterm
  obtain ⟨c, hc, rfl⟩ := List.mem_map.mp hterm
  rw [ne_eq, Term.verdict_eq_none_iff]
  obtain hand | hor | ⟨comparison, hstat⟩ := hkinds c hc
  · exact absurd hand (Criterion.isOperand_term_iff.mp hoperand .and)
  · exact absurd hor (Criterion.isOperand_term_iff.mp hoperand .or)
  · simp [Term.comparison?, Criterion.term, hstat]

end Tree

/-! ### The check of an action -/

/-- Let the criteria of an action contain no negation, and let their operands be comparisons, fewer
than can be counted. Then their tree counts its conjuncts, and as met those in which a requirement
holds. The action may be performed when all of them count as met, and otherwise what is missing are
the requirements of the other ones, each with its stat and its bound, with the current amount of
the stat and with the sign of the comparison. The requirements of the conjuncts are the operands
among the criteria, in their order. -/
theorem check_eq_of_comparisons
    {names : Names} {criteria : List Criterion} {s : Snapshot} (hne : criteria ≠ [])
    (hkinds : ∀ c ∈ criteria, c.kind = .connective .and ∨ c.kind = .connective .or
      ∨ ∃ comparison, c.kind = .stat (some comparison))
    (hsmall : (terms names criteria).countP Term.isOperand < 2 ^ 32) :
  ∃ t, Tree.build? names (some s) criteria = some t
    ∧ t.tally.total = t.conjuncts.length
    ∧ t.tally.met = t.heldCount
    ∧ ((check names criteria s).canPerform ↔ t.tally.met = t.tally.total)
    ∧ (check names criteria s).unmet
      = t.lacking.map (fun leaf =>
          { stat := leaf.1.criterion.stat
            statName := leaf.1.statName
            required := leaf.1.displayValue
            current := s.reading leaf.1.criterion.stat
            operator := leaf.1.symbol })
    ∧ t.conjuncts.flatMap Tree.leaves
      = ((terms names criteria).filter Term.isOperand).map fun term => (term, term.verdict (some s))
  := by
  obtain ⟨t, hbuilt⟩ := Tree.exists_build? names (some s) hne
  have hcheck : check names criteria s = t.outcome s := by rw [check, hbuilt]
  have hnot : ∀ c ∈ criteria, c.kind ≠ .connective .not := by
    intro c hc hnot
    obtain hkind | hkind | ⟨comparison, hkind⟩ := hkinds c hc <;> simp [hnot] at hkind
  have hpositive := Tree.isPositive_of_build? hnot hbuilt
  have hdecided := Tree.isDecided_of_build? hkinds hbuilt
  rw [← Tree.leafCount_of_build? hbuilt] at hsmall
  use t, hbuilt
  rw [hcheck, Tree.canPerform_outcome_iff, Tree.flatMap_leaves_conjuncts,
    Tree.leaves_of_build? hbuilt]
  obtain hfull | ⟨place, rfl⟩ := Tree.isFull_or_emptyGroup_of_build? hbuilt
  · have hcounts := hpositive.countsConjuncts hfull hdecided hsmall
    refine ⟨hcounts.total_eq, hcounts.met_eq, ?_, ?_, rfl⟩
    · rw [Status.not_isBlocking_iff, or_iff_left hcounts.status_ne_unknown]
      exact hfull.isCoherent_tally.status_eq_met_iff
    · rw [Tree.outcome, Tree.shortfalls, hpositive.blockers_eq hfull hdecided hsmall, List.map_map]
      rfl
  · refine ⟨rfl, rfl, iff_of_true ?_ rfl, rfl, rfl⟩
    simp [Tree.emptyGroup_passes]

/-- An alternative that holds in part counts as met, and none of its requirements is missing. -/
theorem check_of_partly_met_alternative :
  let criteria : List Criterion :=
    [⟨0, 1, 0, 1⟩, ⟨1, 2, 0, 2⟩, ⟨2, 3, 0, 3⟩, .sentinel 3 4, ⟨4, 4, 0, 4⟩, .sentinel 5 3,
      .sentinel 6 4]
  let s : Snapshot := (∅ : Snapshot).insert 2 2
  (∀ c ∈ criteria, c.kind = .connective .and ∨ c.kind = .connective .or
      ∨ ∃ comparison, c.kind = .stat (some comparison))
    ∧ (∃ t, Tree.build? .none (some s) criteria = some t
      ∧ t.tally.total = 2 ∧ t.tally.met = 1)
    ∧ ¬ (check .none criteria s).canPerform
    ∧ (check .none criteria s).unmet = [⟨1, "Stat 1", 1, 0, "="⟩]
  := by
  intro criteria s
  have hbuilt : Tree.build? .none (some s) criteria = some _ := rfl
  have hkinds : ∀ c ∈ criteria, c.kind = .connective .and ∨ c.kind = .connective .or
      ∨ ∃ comparison, c.kind = .stat (some comparison) := by
    simp only [criteria, List.forall_mem_cons]
    refine ⟨?_, ?_, ?_, .inl rfl, ?_, .inr (.inl rfl), .inl rfl, by simp⟩ <;>
      exact .inr (.inr ⟨.equal, rfl⟩)
  have hsmall : (terms .none criteria).countP Term.isOperand < 2 ^ 32 := by decide
  obtain ⟨t, ht, htotal, hmet, hpasses, hunmet, -⟩ :=
    check_eq_of_comparisons (s := s) (List.cons_ne_nil _ _) hkinds hsmall
  obtain rfl := Option.some.inj (hbuilt.symm.trans ht)
  refine ⟨hkinds, ⟨_, ht, htotal, hmet⟩, ?_, hunmet⟩
  rw [hpasses, htotal, hmet]
  decide

end Prerequisite
