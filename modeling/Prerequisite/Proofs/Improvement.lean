import Prerequisite.Proofs.Blockers
import Prerequisite.Proofs.Reevaluation
import Prerequisite.Proofs.Tree.Positive

/-!
# Improved verdicts

A snapshot improves a tree if each requirement that does not fail keeps its verdict.  One might
expect that a tree without negations which passes then still passes.  It need not: a disjunction can
be met through a conjunction that is met in part, and become unknown when all other requirements of
the conjunction hold but one of them is unknown.  Then the disjunction does not count as met any
more, and if it was the only part that counted for a conjunction in another disjunction, that one
may become unmet.  Where no disjunction below another one wavers in this way, a tree that passes
still passes.
-/

namespace Prerequisite

namespace Tree

variable {stats : Option Snapshot}

/-! ### Tallies of evaluated trees -/

theorem tally_decided_any (stats : Option Snapshot) (place : Place) (parts : List Tree) :
  ((Tree.junction place .any parts).decided stats).tally
    = .any (parts.map fun t => (t.decided stats).tally)
  := by
  rw [decided, eachDecided_eq_map, tally_any, List.map_map]
  rfl

theorem tally_decided_all (stats : Option Snapshot) (place : Place) {kind : Junction}
    (hkind : kind ≠ .any) (parts : List Tree) :
  ((Tree.junction place kind parts).decided stats).tally
    = .all (parts.map fun t => (t.decided stats).tally)
  := by
  rw [decided, eachDecided_eq_map, tally_all _ hkind, List.map_map]
  rfl

/-- How many parts a tree counts does not depend on the verdicts. -/
theorem total_decided (stats : Option Snapshot) (t : Tree) :
  (t.decided stats).tally.total = t.tally.total
  := by
  induction t using Tree.induction with
  | requirement place verdict term => rfl
  | negation place operand ih => exact ih
  | junction place kind parts ih =>
    by_cases hkind : kind = .any
    · subst hkind
      rw [tally_decided_any, tally_any, Tally.total_any, Tally.total_any]
    · rw [tally_decided_all _ _ hkind, tally_all _ hkind]
      simp only [Tally.all, List.map_map]
      exact congrArg Tally.sum (List.map_congr_left ih)

/-! ### Disjunctions that waver -/

/-- The tree is a disjunction that is met, and with the snapshot it is unknown. -/
def Wavers (stats : Option Snapshot) (t : Tree) : Prop :=
  t.connective? = some .or ∧ t.status = .met ∧ (t.decided stats).status = .unknown

/-- The tree occurs in a part of a disjunction in another tree. -/
inductive OccursBelowDisjunction (t : Tree) : Tree → Prop where
  | disjunction {depth : Nat} {part : Tree} {parts : List Tree} (place : Place) :
      part ∈ parts → OccursIn t depth part →
      OccursBelowDisjunction t (.junction place .any parts)
  | junction {part : Tree} {parts : List Tree} (place : Place) (kind : Junction) :
      part ∈ parts → OccursBelowDisjunction t part →
      OccursBelowDisjunction t (.junction place kind parts)
  | negation {operand : Tree} (place : Place) :
      OccursBelowDisjunction t operand → OccursBelowDisjunction t (.negation place operand)

theorem OccursBelowDisjunction.occursIn {t root : Tree} (h : t.OccursBelowDisjunction root) :
  ∃ depth, t.OccursIn depth root
  := by
  induction h with
  | disjunction place hpart hu => exact ⟨_, .junction place .any hpart hu⟩
  | junction place kind hpart _ ih =>
    obtain ⟨depth, hu⟩ := ih
    exact ⟨depth, .junction place kind hpart hu⟩
  | negation place _ ih =>
    obtain ⟨depth, hu⟩ := ih
    exact ⟨depth + 1, .negation place hu⟩

/-- No disjunction in the tree wavers. -/
def IsSteady (stats : Option Snapshot) (t : Tree) : Prop :=
  ∀ depth u, OccursIn u depth t → ¬ u.Wavers stats

/-- No disjunction below another one in the tree wavers. -/
def IsSteadyBelow (stats : Option Snapshot) (t : Tree) : Prop :=
  ∀ u, OccursBelowDisjunction u t → ¬ u.Wavers stats

section Junction

variable {place : Place} {kind : Junction} {parts : List Tree}

@[simp]
theorem isSteady_requirement (place : Place) (verdict : Option Bool) (term : Term) :
  (Tree.requirement place verdict term).IsSteady stats
  := by
  intro depth u hu
  cases hu
  simp [Wavers, connective?]

@[simp]
theorem isSteady_junction_iff :
  (Tree.junction place kind parts).IsSteady stats
    ↔ ¬ (Tree.junction place kind parts).Wavers stats ∧ ∀ part ∈ parts, part.IsSteady stats
  := by
  constructor
  · intro h
    use h 0 _ .root
    intro part hpart depth u hu
    apply h depth u
    exact .junction place kind hpart hu
  · rintro ⟨hroot, hparts⟩ depth u hu
    cases hu with
    | root => exact hroot
    | junction _ _ hpart hu => apply hparts _ hpart depth u hu

/-- All that occurs in a part of a disjunction is below the disjunction. -/
@[simp]
theorem isSteadyBelow_any_iff :
  (Tree.junction place .any parts).IsSteadyBelow stats ↔ ∀ part ∈ parts, part.IsSteady stats
  := by
  constructor
  · intro h part hpart depth u hu
    exact h u (.disjunction place hpart hu)
  · intro h u hu
    cases hu with
    | disjunction _ hpart hu => exact h _ hpart _ u hu
    | junction _ _ hpart hbelow =>
      obtain ⟨depth, hu⟩ := hbelow.occursIn
      exact h _ hpart depth u hu

theorem IsSteadyBelow.of_mem {part : Tree}
    (h : (Tree.junction place kind parts).IsSteadyBelow stats) (hpart : part ∈ parts) :
  part.IsSteadyBelow stats
  := by
  intro u hu
  exact h u (.junction place kind hpart hu)

end Junction

/-! ### Improved trees -/

/-- With the snapshot, each requirement of the tree that does not fail keeps its verdict. -/
def IsImprovedBy (stats : Option Snapshot) (t : Tree) : Prop :=
  ∀ leaf ∈ t.leaves, leaf.2 ≠ some false → leaf.1.verdict stats = leaf.2

theorem IsImprovedBy.of_mem
    {place : Place} {kind : Junction} {part : Tree} {parts : List Tree}
    (h : (Tree.junction place kind parts).IsImprovedBy stats) (hpart : part ∈ parts) :
  part.IsImprovedBy stats
  := by
  intro leaf hleaf
  apply h
  exact mem_leaves_junction_iff.mpr ⟨part, hpart, hleaf⟩

/-- With the snapshot, the tree counts as much as met as before at least, and if it passed then it
still passes. -/
structure IsBetter (stats : Option Snapshot) (t : Tree) : Prop where
  met_le : t.tally.met ≤ (t.decided stats).tally.met
  passes : ¬ t.status.isBlocking → ¬ (t.decided stats).status.isBlocking

/-- A tree that was met and counts as much as met as before is still met. -/
theorem status_decided_eq_met {t : Tree} (hfull : t.IsFull)
    (hle : t.tally.met ≤ (t.decided stats).tally.met) (hmet : t.status = .met) :
  (t.decided stats).status = .met
  := by
  have hcoherent := IsFull.isCoherent_tally (hfull.decided stats)
  apply hcoherent.status_eq_met_iff.mpr
  apply Nat.le_antisymm hcoherent.met_le_total
  rwa [total_decided, ← hfull.isCoherent_tally.status_eq_met_iff.mp hmet]

theorem isBetter_requirement {place : Place} {verdict : Option Bool} {term : Term}
    (h : (Tree.requirement place verdict term).IsImprovedBy stats) :
  (Tree.requirement place verdict term).IsBetter stats
  := by
  by_cases hfails : verdict = some false
  · constructor
    · simp [tally, Tally.ofStatus, hfails, Status.ofVerdict]
    · intro hpasses
      simp [status_requirement, hfails, Status.ofVerdict] at hpasses
  · have hverdict := h (term, verdict) (List.mem_singleton_self _) hfails
    constructor
    · rw [decided, ofTerm, tally, tally, hverdict]
    · rw [decided, ofTerm, status_requirement, status_requirement, hverdict]
      exact id

section Junction

variable {place : Place} {kind : Junction} {parts : List Tree}

/-- A conjunction of better parts is better. -/
theorem isBetter_all (hkind : kind ≠ .any) (hfull : (Tree.junction place kind parts).IsFull)
    (h : ∀ part ∈ parts, part.IsBetter stats) :
  (Tree.junction place kind parts).IsBetter stats
  := by
  have hle : (Tree.junction place kind parts).tally.met
      ≤ ((Tree.junction place kind parts).decided stats).tally.met := by
    rw [tally_decided_all _ _ hkind, tally_all _ hkind]
    simp only [Tally.all, Tally.sum_eq_min, List.map_map]
    apply min_le_min_right
    apply List.sum_le_sum
    intro part hpart
    apply (h part hpart).met_le
  use hle
  -- a conjunction that was met stays so by its count, and one that was unknown by its parts
  intro hpasses hblocking
  obtain hmet | hunknown := (Status.not_isBlocking_iff _).mp hpasses
  · simp [status_decided_eq_met hfull hle hmet] at hblocking
  · rw [decided, eachDecided_eq_map] at hblocking
    obtain ⟨u, hu, hblocking⟩ := exists_isBlocking_of_all hkind hblocking
    obtain ⟨part, hpart, rfl⟩ := List.mem_map.mp hu
    exact (h part hpart).passes (not_isBlocking_of_all_unknown hkind hunknown part hpart) hblocking

/-- If a disjunction of better parts passed then it still passes. -/
theorem not_isBlocking_decided_any (h : ∀ part ∈ parts, part.IsBetter stats)
    (hpasses : ¬ (Tree.junction place .any parts).status.isBlocking) :
  ¬ ((Tree.junction place .any parts).decided stats).status.isBlocking
  := by
  intro hblocking
  apply hpasses
  rw [decided, eachDecided_eq_map, isBlocking_any_iff, List.forall_mem_map] at hblocking
  rw [isBlocking_any_iff]
  intro part hpart
  -- nothing counts as met in the part now, so nothing did before
  have hunmet := hblocking part hpart
  have hzero : part.tally.met = 0 := by
    have hle := (h part hpart).met_le
    rwa [met_eq_zero_of_unmet hunmet, Nat.le_zero] at hle
  have hblocked : part.status.isBlocking := by
    by_contra hpasses
    apply (h part hpart).passes hpasses
    simp [hunmet]
  obtain hbefore | hpartly := (Status.isBlocking_iff _).mp hblocked
  · exact hbefore
  · have hpos := part.isConsistent_tally.met_pos_of_partly hpartly
    omega

/-- A disjunction of better parts is better, if it does not waver. -/
theorem isBetter_any (h : ∀ part ∈ parts, part.IsBetter stats)
    (hsteady : ¬ (Tree.junction place .any parts).Wavers stats) :
  (Tree.junction place .any parts).IsBetter stats
  := by
  refine ⟨?_, not_isBlocking_decided_any h⟩
  rcases Nat.eq_zero_or_pos (Tree.junction place .any parts).tally.met with hzero | hpos
  · rw [hzero]
    exact Nat.zero_le _
  · have hmet : (Tree.junction place .any parts).status = .met := by
      rwa [status, tally_any, Tally.status_any_eq_met_iff, ← Tally.met_any_pos_iff, ← tally_any]
    have hpasses : ¬ ((Tree.junction place .any parts).decided stats).status.isBlocking := by
      apply not_isBlocking_decided_any h
      simp [hmet]
    obtain hafter | hunknown := (Status.not_isBlocking_iff _).mp hpasses
    · rw [status, tally_decided_any] at hafter
      rw [tally_decided_any, tally_any, (Tally.isCoherent_any _).status_eq_met_iff.mp hafter,
        Tally.total_any, ← Tally.total_any (parts.map tally)]
      exact (Tally.isCoherent_any _).met_le_total
    · exact absurd ⟨rfl, hmet, hunknown⟩ hsteady

end Junction

/-- An improved tree without negations is better, if no disjunction in it wavers. -/
theorem IsPositive.isBetter {t : Tree} (hpositive : t.IsPositive) (hfull : t.IsFull)
    (himproved : t.IsImprovedBy stats) (hsteady : t.IsSteady stats) :
  t.IsBetter stats
  := by
  induction hpositive with
  | requirement place verdict term => exact isBetter_requirement himproved
  | @junction parts place kind _ ih =>
    rw [isSteady_junction_iff] at hsteady
    have hbetter : ∀ part ∈ parts, part.IsBetter stats := fun part hpart =>
      ih part hpart (Shaped.of_mem hfull hpart) (himproved.of_mem hpart) (hsteady.2 part hpart)
    by_cases hkind : kind = .any
    · subst hkind
      exact isBetter_any hbetter hsteady.1
    · exact isBetter_all hkind hfull hbetter

/-- If an improved tree without negations and with few leaves passed then it still passes, if no
disjunction below another one wavers. -/
theorem IsPositive.not_isBlocking_decided {t : Tree} (hpositive : t.IsPositive)
    (hfull : t.IsFull) (hsmall : t.leafCount < 2 ^ 32) (himproved : t.IsImprovedBy stats)
    (hsteady : t.IsSteadyBelow stats)
    (hpasses : ¬ t.status.isBlocking) :
  ¬ (t.decided stats).status.isBlocking
  := by
  induction hpositive with
  | requirement place verdict term => exact (isBetter_requirement himproved).passes hpasses
  | @junction parts place kind hparts ih =>
    have hfull' : ∀ part ∈ parts, part.IsFull := fun _ => Shaped.of_mem hfull
    by_cases hkind : kind = .any
    · -- the parts are below a disjunction, so that nothing in them wavers
      subst hkind
      apply not_isBlocking_decided_any _ hpasses
      intro part hpart
      apply (hparts part hpart).isBetter (hfull' part hpart) (himproved.of_mem hpart)
      exact isSteadyBelow_any_iff.mp hsteady part hpart
    · intro hblocking
      rw [decided, eachDecided_eq_map] at hblocking
      obtain ⟨u, hu, hblocking⟩ := exists_isBlocking_of_all hkind hblocking
      obtain ⟨part, hpart, rfl⟩ := List.mem_map.mp hu
      apply ih part hpart (hfull' part hpart) _ (himproved.of_mem hpart) (hsteady.of_mem hpart) _
        hblocking
      · exact (leafCount_le_of_mem place kind hpart).trans_lt hsmall
      · exact (IsFull.countsLeaves hfull).not_isBlocking_of_mem hkind hsmall hpasses part hpart

/-- Where each criterion that holds still holds with another snapshot, the tree of the criteria is
improved. -/
theorem isImprovedBy_of_build?
    {names : Names} {criteria : List Criterion} {s s' : Snapshot} {t : Tree}
    (hbuilt : build? names (some s) criteria = some t)
    (hmet : ∀ c ∈ criteria, (c.term names).verdict (some s) = some true →
      (c.term names).verdict (some s') = some true) :
  t.IsImprovedBy (some s')
  := by
  intro leaf hleaf hverdict
  rw [leaves_of_build? hbuilt] at hleaf
  obtain ⟨term, hterm, rfl⟩ := List.mem_map.mp hleaf
  obtain ⟨c, hc, rfl⟩ := List.mem_map.mp (List.mem_of_mem_filter hterm)
  rcases hbefore : (c.term names).verdict (some s) with _ | _ | _
  · exact Term.verdict_eq_none_iff.mpr (Term.verdict_eq_none_iff.mp hbefore)
  · exact absurd hbefore hverdict
  · exact hmet c hc hbefore

end Tree

/-! ### The check of an action -/

/-- Let an action have criteria without a negation and be allowed with a snapshot, and let each
criterion that holds still hold with another one. If no disjunction below another one is met with
the first snapshot and unknown with the second one, then the action is still allowed. If the
criteria have more operands than can be counted, then this must not happen to any disjunction. -/
theorem canPerform_of_improved
    {names : Names} {criteria : List Criterion} {s s' : Snapshot}
    (hnot : ∀ c ∈ criteria, c.kind ≠ .connective .not)
    (hmet : ∀ c ∈ criteria, (c.term names).verdict (some s) = some true →
      (c.term names).verdict (some s') = some true)
    (hnested : ∀ t, Tree.build? names (some s) criteria = some t → t.IsSteadyBelow (some s'))
    (hlarge : ∀ t, Tree.build? names (some s) criteria = some t →
      2 ^ 32 ≤ t.leafCount → t.IsSteady (some s'))
    (h : (check names criteria s).canPerform) :
  (check names criteria s').canPerform
  := by
  rcases hbuilt : Tree.build? names (some s) criteria with _ | t
  · rw [check, ← Tree.map_evaluate_build? names (some s), hbuilt]
    rfl
  have hpasses : ¬ t.status.isBlocking := by
    rwa [check, hbuilt, Tree.canPerform_outcome_iff] at h
  rw [check_eq_outcome_evaluate hbuilt, Tree.canPerform_outcome_iff, Tree.evaluate, Tree.status,
    Tree.tally_finalize]
  obtain hfull | ⟨place, rfl⟩ := Tree.isFull_or_emptyGroup_of_build? hbuilt
  · have hpositive := Tree.isPositive_of_build? hnot hbuilt
    have himproved := Tree.isImprovedBy_of_build? hbuilt hmet
    rcases Nat.lt_or_ge t.leafCount (2 ^ 32) with hsmall | hmany
    · exact hpositive.not_isBlocking_decided hfull hsmall himproved (hnested t hbuilt) hpasses
    · exact (hpositive.isBetter hfull himproved (hlarge t hbuilt hmany)).passes hpasses
  · exact hpasses

/-- A disjunction that is below no other one may become unknown. -/
theorem canPerform_of_unknown_disjunction :
  let criteria : List Criterion :=
    [⟨0, 1, 0, 1⟩, ⟨1, 2, 0, 2⟩, .sentinel 2 4, ⟨3, 0, 26, 1⟩, .sentinel 4 4, ⟨5, 3, 0, 3⟩,
      .sentinel 6 3]
  let s : Snapshot := (∅ : Snapshot).insert 1 1
  let s' : Snapshot := s.insert 2 2
  (∃ t, Tree.build? .none (some s) criteria = some t ∧ t.Wavers (some s'))
    ∧ (check .none criteria s).canPerform ∧ (check .none criteria s').canPerform
  := by
  intro criteria s s'
  let conjunction : Tree := .junction ⟨1, false⟩ .all
    [.requirement ⟨2, false⟩ (some true) (Criterion.term .none ⟨0, 1, 0, 1⟩),
      .requirement ⟨2, false⟩ (some false) (Criterion.term .none ⟨1, 2, 0, 2⟩),
      .requirement ⟨2, true⟩ none (Criterion.term .none ⟨3, 0, 26, 1⟩)]
  let disjunction : Tree := .junction ⟨0, true⟩ .any
    [conjunction, .requirement ⟨1, true⟩ (some false) (Criterion.term .none ⟨5, 3, 0, 3⟩)]
  have hbuilt : Tree.build? .none (some s) criteria = some disjunction := rfl
  have hpasses : (check .none criteria s).canPerform := by decide
  have hwavers : disjunction.Wavers (some s') := ⟨rfl, by decide, by decide⟩
  refine ⟨⟨disjunction, hbuilt, hwavers⟩, hpasses, ?_⟩
  apply canPerform_of_improved _ _ _ _ hpasses
  · decide
  · decide
  · rintro t ht
    obtain rfl : disjunction = t := Option.some.inj (hbuilt.symm.trans ht)
    simp [disjunction, conjunction, Tree.Wavers, Tree.connective?]
  · rintro t ht hlarge
    obtain rfl : disjunction = t := Option.some.inj (hbuilt.symm.trans ht)
    exact absurd hlarge (by decide)

/-- When a requirement is met that failed before, an action that was allowed may be refused. -/
theorem not_canPerform_of_nested_unknown_disjunction :
  let criteria : List Criterion :=
    [⟨0, 1, 0, 1⟩, ⟨1, 2, 0, 2⟩, .sentinel 2 4, ⟨3, 0, 26, 1⟩, .sentinel 4 4, ⟨5, 3, 0, 3⟩,
      .sentinel 6 3, ⟨7, 4, 0, 4⟩, .sentinel 8 4, ⟨9, 5, 0, 5⟩, .sentinel 10 3]
  let s : Snapshot := (∅ : Snapshot).insert 1 1
  let s' : Snapshot := s.insert 2 2
  (∀ c ∈ criteria, c.kind ≠ .connective .not)
    ∧ (∀ c ∈ criteria, (c.term .none).verdict (some s) = some true →
      (c.term .none).verdict (some s') = some true)
    ∧ (check .none criteria s).canPerform = true
    ∧ (check .none criteria s').canPerform = false
  := by
  decide

end Prerequisite
