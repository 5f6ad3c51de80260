import Prerequisite.Proofs.NormalForm

/-!
# Counts and blocking parts

The counts of a tree decide its status as far as they can, in each tree, however it was built and
transformed.  The status of a conjunction or of a group is decided by the counts before the
statuses of the parts are consulted, but a part that blocks is not overlooked, unless the counts
reach the limit.  They cannot reach it in a tree with few leaves, where an empty group is a leaf,
too.  The requirements alone do not bound the counts, because a choice between empty groups counts.
-/

namespace Prerequisite.Tree

/-! ### Tips -/

mutual

/-- The number of tips of a tree, which are the nodes without parts: the requirements, and the
groups of no trees. -/
def tipCount : Tree → Nat
  | .requirement _ _ _ => 1
  | .negation _ operand => operand.tipCount
  | .junction _ _ [] => 1
  | .junction _ _ parts => tipCountOf parts

/-- The number of tips of some trees together. -/
def tipCountOf : List Tree → Nat
  | [] => 0
  | t :: rest => t.tipCount + tipCountOf rest

end

theorem tipCountOf_eq_sum (parts : List Tree) :
  tipCountOf parts = (parts.map tipCount).sum
  := by
  induction parts with
  | nil => rfl
  | cons t rest ih => rw [tipCountOf, ih, List.map_cons, List.sum_cons]

theorem tipCount_junction (place : Place) (kind : Junction) {parts : List Tree}
    (hne : parts ≠ []) :
  (Tree.junction place kind parts).tipCount = (parts.map tipCount).sum
  := by
  rw [tipCount, tipCountOf_eq_sum]
  exact hne

theorem tipCount_pos (t : Tree) :
  0 < t.tipCount
  := by
  induction t using Tree.induction with
  | requirement place verdict term => simp [tipCount]
  | negation place operand ih => rwa [tipCount]
  | junction place kind parts ih =>
    cases parts with
    | nil => simp [tipCount]
    | cons part rest =>
      rw [tipCount_junction place kind (List.cons_ne_nil _ _), List.map_cons, List.sum_cons]
      apply Nat.add_pos_left
      exact ih part List.mem_cons_self

/-- A tree weighs at most as much as it has tips. -/
theorem weight_le_tipCount (t : Tree) :
  t.weight ≤ t.tipCount
  := by
  induction t using Tree.induction with
  | requirement place verdict term => rfl
  | negation place operand ih => rwa [weight, tipCount]
  | junction place kind parts ih =>
    by_cases hkind : kind = .any
    · subst hkind
      rw [weight]
      apply tipCount_pos
    · rw [weight_all place hkind]
      by_cases hne : parts = []
      · simp [hne, tipCount]
      · rw [tipCount_junction place kind hne]
        exact List.sum_le_sum ih

variable {t : Tree}

/-- The tree has fewer leaves than can be counted. The leaves are its tips, so that an empty group
is one. If no disjunction is made of empty groups alone, then it is enough to count the
requirements. -/
def HasFewLeaves (t : Tree) : Prop :=
  t.tipCount < 2 ^ 32
    ∨ t.leafCount < 2 ^ 32 ∧ ∀ (depth : Nat) (u : Tree), u.OccursIn depth t →
      u.connective? = some .or → 0 < u.leafCount

/-- The weight of a tree with few leaves can be counted. -/
theorem HasFewLeaves.weight_le (h : t.HasFewLeaves) :
  t.weight ≤ Tally.countLimit
  := by
  rw [Tally.countLimit]
  obtain htips | ⟨hleaves, hany⟩ := h
  · have hle := t.weight_le_tipCount
    omega
  · have hle := weight_le_leafCount_of_any hany
    omega

/-! ### Blocking parts -/

theorem exists_eq_all (h : t.connective? = some .and ∨ t.isGroup) :
  ∃ place kind parts, kind ≠ .any ∧ t = .junction place kind parts
  := by
  cases t with
  | requirement place verdict term => simp [connective?, isGroup] at h
  | negation place operand => simp [connective?, isGroup] at h
  | junction place kind parts =>
    use place, kind, parts
    cases kind <;> simp [connective?, isGroup] at h ⊢

/-- The counts and the status of a tree agree, whatever the tree, and also where the counts reach
the limit. A conjunction or a group is blocking exactly when a part is, if it has few leaves. -/
theorem status_agrees_with_counts (t : Tree) :
  (t.status = .met ↔ t.tally.met = t.tally.total ∧ 0 < t.tally.total)
  ∧ (t.status = .partly → 0 < t.tally.met ∧ t.tally.met < t.tally.total)
  ∧ (t.status = .unmet → t.tally.met = 0 ∧ 0 < t.tally.total)
  ∧ (t.status = .unknown →
      t.tally.met < t.tally.total ∨ t.tally.met = 0 ∧ t.tally.total = 0)
  ∧ (t.connective? = some .and ∨ t.isGroup → t.HasFewLeaves →
      (t.status.isBlocking ↔ ∃ child ∈ t.children, child.status.isBlocking))
  := by
  have hconsistent := t.isConsistent_tally
  refine ⟨?met, ?partly, ?unmet, ?unknown, ?blocking⟩
  case met => exact hconsistent.status_eq_met_iff.trans and_comm
  case partly =>
    intro hpartly
    use hconsistent.met_pos_of_partly hpartly
    exact hconsistent.met_lt_total ((Status.isBlocking_iff _).mpr (.inr hpartly))
  case unmet =>
    intro hunmet
    use hconsistent.met_eq_zero_of_unmet hunmet
    exact hconsistent.total_pos_of_unmet hunmet
  case unknown =>
    intro hunknown
    have hmet : ¬ t.tally.status = .met := by
      rw [← status, hunknown]
      simp
    have hle := hconsistent.met_le_total
    rw [hconsistent.status_eq_met_iff] at hmet
    omega
  case blocking =>
    intro hall hfew
    obtain ⟨place, kind, parts, hkind, rfl⟩ := exists_eq_all hall
    exact isBlocking_all_iff_of_weight hkind hfew.weight_le

/-- A negation counts as met whatever its operand counts, choices of empty groups among it, and a
requirement that fails beside the negation still blocks. -/
theorem isBlocking_beside_negation :
  let fails : Tree := .requirement {} (some false) (Criterion.term .none ⟨0, 1, 0, 1⟩)
  let t : Tree := group [.not (.all [fails, .any [group [], group []]]), fails]
  t.tally.met = 2 ∧ t.tally.total = 3 ∧ t.leafCount = 2 ∧ t.tipCount = 4 ∧ t.status.isBlocking
  := by
  intro fails t
  refine ⟨by decide, by decide, by decide, by decide, ?_⟩
  apply ((status_agrees_with_counts t).2.2.2.2 (.inr rfl) (.inl (by decide))).mpr
  use fails, by simp [t, group, children]
  rfl

/-! ### Counts at the limit -/

/-- Choices between empty groups, twice as many at each level of grouping. They count, although
they have no requirements. -/
def choices : Nat → Tree
  | 0 => .any [group [], group []]
  | depth + 1 => group [choices depth, choices depth]

theorem tally_choices (depth : Nat) :
  (choices depth).tally = ⟨0, min (2 ^ depth) Tally.countLimit, .unknown⟩
  := by
  induction depth with
  | zero => decide
  | succ depth ih =>
    have hpos : 0 < min (2 ^ (depth + 1)) Tally.countLimit :=
      lt_min (Nat.two_pow_pos (depth + 1)) (by decide)
    have hsum (limit : Nat) :
        min (min (2 ^ depth) limit + min (2 ^ depth) limit) limit
          = min (2 ^ (depth + 1)) limit := by
      omega
    have hpasses : ¬ Status.unknown.isBlocking := by decide
    rw [choices, group, tally_all _ (by decide)]
    simp [Tally.all, Tally.sum_eq_min, ih, hpos.ne, hpasses, hsum]

theorem leafCount_choices (depth : Nat) :
  (choices depth).leafCount = 0
  := by
  induction depth with
  | zero => rfl
  | succ depth ih => simp [choices, group, leafCount_junction, ih]

theorem isConstructed_choices (depth : Nat) :
  (choices depth).IsConstructed
  := by
  induction depth with
  | zero => apply IsConstructed.or <;> apply IsConstructed.group <;> simp
  | succ depth ih =>
    apply IsConstructed.group
    simp [ih]

/-- A tree beside a negation, which negates the same tree together with some choices. -/
def besideChoices (fails : Tree) (depth : Nat) : Tree :=
  group [(group [fails, choices depth]).not, fails]

section Choices

variable {fails : Tree} {depth : Nat}

/-- The negation of what fails is met, and it counts the choices beside what fails. -/
theorem tally_not_group_choices (h : fails.tally = ⟨0, 1, .unmet⟩)
    (hdepth : Tally.countLimit ≤ 2 ^ depth) :
  (group [fails, choices depth]).not.tally = ⟨Tally.countLimit, Tally.countLimit, .met⟩
  := by
  have hblocking : Status.unmet.isBlocking := by decide
  have hne : 0 ≠ Tally.countLimit := by decide
  rw [Tree.not, tally_negation, group, tally_all _ (by decide)]
  simp [Tally.all, Tally.not, Tally.sum_eq_min, h, tally_choices, hdepth, hblocking, hne,
    Status.inverted]

/-- If the choices fill the counts, then what fails beside the negation is overlooked. -/
theorem status_besideChoices (h : fails.tally = ⟨0, 1, .unmet⟩)
    (hdepth : Tally.countLimit ≤ 2 ^ depth) :
  (besideChoices fails depth).status = .met
  := by
  rw [status, besideChoices, group, tally_all _ (by decide)]
  apply Tally.status_all_eq_met_of_countLimit_le
  · apply fun part hpart => (isConsistent_of_mem_map _ part hpart).met_le_total
  · simp [tally_not_group_choices h hdepth]

theorem leafCount_besideChoices (fails : Tree) (depth : Nat) :
  (besideChoices fails depth).leafCount = 2 * fails.leafCount
  := by
  simp [besideChoices, group, Tree.not, leafCount_junction, leafCount_negation, leafCount_choices,
    two_mul]

theorem isConstructed_besideChoices (h : fails.IsConstructed) (depth : Nat) :
  (besideChoices fails depth).IsConstructed
  := by
  have hoperand : (group [fails, choices depth]).IsConstructed := by
    apply IsConstructed.group
    simp [h, isConstructed_choices]
  apply IsConstructed.group
  simp [hoperand.not, h]

end Choices

/-- It is not enough that a tree has few requirements: one that fails is overlooked beside more
choices between empty groups than can be counted. -/
theorem not_isBlocking_beside_choices :
  let fails : Tree := .requirement {} (some false) (Criterion.term .none ⟨0, 1, 0, 1⟩)
  let t := besideChoices fails 32
  t.IsConstructed ∧ t.leafCount = 2 ∧ t.isGroup
    ∧ fails ∈ t.children ∧ fails.status.isBlocking ∧ ¬ t.status.isBlocking
  := by
  intro fails t
  have hmem : fails ∈ t.children := List.mem_cons_of_mem _ List.mem_cons_self
  have hstatus : t.status = .met := status_besideChoices rfl (by decide)
  refine ⟨isConstructed_besideChoices (.requirement _ _) _, leafCount_besideChoices fails _, rfl,
    hmem, rfl, ?_⟩
  rw [hstatus]
  decide

end Prerequisite.Tree
