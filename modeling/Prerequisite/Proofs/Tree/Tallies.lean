import Mathlib.Algebra.Order.BigOperators.Group.List
import Mathlib.Algebra.Order.Ring.Nat
import Prerequisite.Proofs.Tree.Shape

/-!
# Counts and statuses

The counts of a tree and its status agree: the tree is met exactly when something counts and all
that counts is met, and if it is met in part then something that counts is met.  As long as each
inner node has a part, something counts.  What a tree counts is its weight, as far as the weight can
be counted, and a conjunction whose weight can be counted is blocking exactly when a part is.  If
each inner node has a part then the weight is at most the number of leaves, so that the counts of a
tree with few leaves are exact.
-/

namespace Prerequisite

/-! ### Statuses -/

@[simp]
theorem Status.isBlocking_iff (s : Status) :
  s.isBlocking ↔ s = .unmet ∨ s = .partly
  := by
  simp [isBlocking]

theorem Status.not_isBlocking_iff (s : Status) :
  ¬ s.isBlocking ↔ s = .met ∨ s = .unknown
  := by
  cases s <;> simp

theorem Status.inverted_eq_met_iff (s : Status) :
  s.inverted = .met ↔ s = .unmet
  := by
  cases s <;> simp [inverted]

theorem Status.inverted_eq_unmet_iff (s : Status) :
  s.inverted = .unmet ↔ s = .met
  := by
  cases s <;> simp [inverted]

theorem Status.ofVerdict_eq_met_iff (verdict : Option Bool) :
  ofVerdict verdict = .met ↔ verdict = some true
  := by
  rcases verdict with _ | _ | _ <;> simp [ofVerdict]

theorem Status.isBlocking_ofVerdict_iff (verdict : Option Bool) :
  (ofVerdict verdict).isBlocking ↔ verdict = some false
  := by
  rcases verdict with _ | _ | _ <;> simp [ofVerdict]

/-- A negation is blocking exactly when its operand is met. -/
theorem Status.isBlocking_inverted_iff (s : Status) :
  s.inverted.isBlocking ↔ s = .met
  := by
  cases s <;> simp [inverted]

namespace Tally

/-! ### Sums of counts -/

theorem foldl_add {m : Nat} (hm : m ≤ countLimit) (counts : List Nat) :
  counts.foldl add m = min (m + counts.sum) countLimit
  := by
  induction counts generalizing m with
  | nil => rw [List.foldl_nil, List.sum_nil, Nat.add_zero, min_eq_left hm]
  | cons count rest ih =>
    have hadd : add m count ≤ countLimit := min_le_right _ _
    rw [List.foldl_cons, ih hadd, List.sum_cons, add]
    omega

/-- It does not matter that the sum is cut at the largest count at each step. -/
theorem sum_eq_min (counts : List Nat) :
  sum counts = min counts.sum countLimit
  := by
  rw [sum, foldl_add (Nat.zero_le _), Nat.zero_add]

theorem sum_pos_iff {counts : List Nat} :
  0 < sum counts ↔ ∃ count ∈ counts, 0 < count
  := by
  rw [sum_eq_min, ← List.sum_pos_iff_exists_pos_nat, countLimit]
  omega

/-- It does not matter whether some counts are cut before they are added. -/
theorem sum_map_min {α : Type} (count : α → Nat) (parts : List α) :
  sum (parts.map fun a => min (count a) countLimit) = min (parts.map count).sum countLimit
  := by
  rw [sum_eq_min]
  induction parts with
  | nil => rfl
  | cons a rest ih =>
    rw [List.map_cons, List.map_cons, List.sum_cons, List.sum_cons]
    omega

/-- Counts that stay within the limit are added without loss. -/
theorem sum_eq_sum {counts : List Nat} (h : counts.sum ≤ countLimit) :
  sum counts = counts.sum
  := by
  rw [sum_eq_min, min_eq_left h]

/-! ### Requirements -/

theorem met_ofStatus_pos_iff (status : Status) :
  0 < (ofStatus status).met ↔ status = .met
  := by
  simp only [ofStatus]
  split_ifs with hmet
  · simp [hmet]
  · simp [hmet]

/-! ### Conjunctions and disjunctions -/

variable {parts : List Tally}

/-- A conjunction is met exactly when it counts something and all that counts is met. -/
theorem status_all_eq_met_iff :
  (all parts).status = .met
    ↔ 0 < sum (parts.map total) ∧ sum (parts.map Tally.met) = sum (parts.map total)
  := by
  simp only [all]
  split_ifs <;> simp_all

/-- A blocking conjunction has a blocking part. -/
theorem exists_isBlocking_of_all (h : (all parts).status.isBlocking) :
  ∃ part ∈ parts, part.status.isBlocking
  := by
  by_contra hnone
  have hany : parts.any (·.status.isBlocking) = false := by simpa using hnone
  revert h
  simp only [all, hany]
  split_ifs <;> simp_all

/-- A conjunction whose status is unknown has no blocking part. -/
theorem not_isBlocking_of_all_unknown (h : (all parts).status = .unknown) :
  ∀ part ∈ parts, ¬ part.status.isBlocking
  := by
  revert h
  simp only [all]
  split_ifs <;> simp_all

theorem satisfies_iff (part : Tally) :
  part.satisfies ↔ part.status = .met ∨ part.status = .partly ∧ 0 < part.met
  := by
  rw [satisfies, decide_eq_true_iff]

/-- A disjunction is met exactly when a part satisfies it. -/
theorem status_any_eq_met_iff :
  (any parts).status = .met ↔ ∃ part ∈ parts, part.satisfies
  := by
  rw [← List.any_eq_true, any]
  split_ifs <;> simp_all

/-- A disjunction counts as met exactly when a part satisfies it. -/
theorem met_any_pos_iff :
  0 < (any parts).met ↔ ∃ part ∈ parts, part.satisfies
  := by
  rw [← List.any_eq_true, any]
  split_ifs <;> simp_all

/-- A disjunction is a single choice. -/
theorem total_any (parts : List Tally) :
  (any parts).total = 1
  := by
  rw [any]
  split_ifs <;> rfl

/-- A conjunction counts what its parts count. -/
theorem total_all (parts : List Tally) :
  (all parts).total = sum (parts.map total)
  := rfl

/-- Nothing counts as met in a conjunction that is unmet. -/
theorem met_all_eq_zero (h : (all parts).status = .unmet) :
  (all parts).met = 0
  := by
  revert h
  simp only [all]
  split_ifs <;> simp_all

/-- A blocking disjunction is unmet, and none of its parts satisfies it or is unknown. -/
theorem isBlocking_any_iff :
  (any parts).status.isBlocking
    ↔ ∀ part ∈ parts, ¬ part.satisfies ∧ part.status ≠ .unknown
  := by
  rw [any]
  split_ifs with hsatisfied hunknown
  · obtain ⟨part, hpart, hsatisfies⟩ := List.any_eq_true.mp hsatisfied
    simp only [Status.isBlocking_iff, reduceCtorEq, or_self, false_iff]
    intro h
    exact (h part hpart).1 hsatisfies
  · obtain ⟨part, hpart, hstatus⟩ := List.any_eq_true.mp hunknown
    simp only [Status.isBlocking_iff, reduceCtorEq, or_self, false_iff]
    intro h
    exact (h part hpart).2 (of_decide_eq_true hstatus)
  · simp_all

/-! ### Agreement of counts and status -/

/-- The counts and the status of a tally agree. The status is unknown if nothing counts. -/
structure IsConsistent (t : Tally) : Prop where
  met_le_total : t.met ≤ t.total
  status_eq_met_iff : t.status = .met ↔ 0 < t.total ∧ t.met = t.total
  met_pos_of_partly : t.status = .partly → 0 < t.met
  met_eq_zero_of_unmet : t.status = .unmet → t.met = 0
  total_pos_of_unmet : t.status = .unmet → 0 < t.total

theorem IsConsistent.met_pos_of_met {t : Tally} (h : t.IsConsistent) (hmet : t.status = .met) :
  0 < t.met
  := by
  obtain ⟨hpos, htotal⟩ := h.status_eq_met_iff.mp hmet
  rwa [htotal]

/-- Something that counts is not met in a blocking tally. -/
theorem IsConsistent.met_lt_total {t : Tally} (h : t.IsConsistent)
    (hblocking : t.status.isBlocking) :
  t.met < t.total
  := by
  obtain hunmet | hpartly := t.status.isBlocking_iff.mp hblocking
  · rw [h.met_eq_zero_of_unmet hunmet]
    exact h.total_pos_of_unmet hunmet
  · have hpos := h.met_pos_of_partly hpartly
    have hle := h.met_le_total
    have hmet := h.status_eq_met_iff
    simp only [hpartly, reduceCtorEq, false_iff] at hmet
    omega

theorem isConsistent_ofVerdict (verdict : Option Bool) :
  (ofStatus (.ofVerdict verdict)).IsConsistent
  := by
  constructor <;> rcases verdict with _ | _ | _ <;> simp [ofStatus, Status.ofVerdict]

theorem IsConsistent.not {t : Tally} (h : t.IsConsistent) :
  t.not.IsConsistent
  := by
  rcases hstatus : t.status
  case met =>
    have hpos := (h.status_eq_met_iff.mp hstatus).1
    constructor <;> simp [Tally.not, hstatus, Status.inverted, hpos, hpos.ne]
  case unmet =>
    have hpos := h.total_pos_of_unmet hstatus
    constructor <;> simp [Tally.not, hstatus, Status.inverted, hpos]
  case partly =>
    constructor <;> simp [Tally.not, hstatus, Status.inverted]
    omega
  case unknown =>
    constructor <;> simp [Tally.not, hstatus, Status.inverted]
    omega

theorem isConsistent_any (parts : List Tally) :
  (any parts).IsConsistent
  := by
  rw [any]
  split_ifs <;> constructor <;> simp

/-- At most as much is met as counts. -/
theorem sum_met_le_sum_total (h : ∀ part ∈ parts, part.met ≤ part.total) :
  (parts.map Tally.met).sum ≤ (parts.map total).sum
  := List.sum_le_sum h

/-- Less is met than counts if a part is not wholly met. -/
theorem sum_met_lt_sum_total (h : ∀ part ∈ parts, part.met ≤ part.total) {part : Tally}
    (hpart : part ∈ parts) (hlt : part.met < part.total) :
  (parts.map Tally.met).sum < (parts.map total).sum
  := List.sum_lt_sum Tally.met total h ⟨part, hpart, hlt⟩

/-- A conjunction that is met although a part is not wholly met counts up to the limit. -/
theorem countLimit_le_sum_met (h : ∀ part ∈ parts, part.met ≤ part.total) {part : Tally}
    (hpart : part ∈ parts) (hlt : part.met < part.total) (hmet : (all parts).status = .met) :
  countLimit ≤ (parts.map Tally.met).sum
  := by
  have hsum := sum_met_lt_sum_total h hpart hlt
  have hreached := (status_all_eq_met_iff.mp hmet).2
  rw [sum_eq_min, sum_eq_min] at hreached
  omega

/-- A conjunction of which as much is met as can be counted is met. -/
theorem status_all_eq_met_of_countLimit_le (h : ∀ part ∈ parts, part.met ≤ part.total)
    (hlimit : countLimit ≤ (parts.map Tally.met).sum) :
  (all parts).status = .met
  := by
  have hle := sum_met_le_sum_total h
  rw [status_all_eq_met_iff, sum_eq_min, sum_eq_min, min_eq_right hlimit,
    min_eq_right (hlimit.trans hle)]
  simp [countLimit]

theorem isConsistent_all (h : ∀ part ∈ parts, part.IsConsistent) :
  (all parts).IsConsistent
  := by
  constructor
  · have hle := sum_met_le_sum_total fun part hpart => (h part hpart).met_le_total
    simp only [all, sum_eq_min]
    omega
  · exact status_all_eq_met_iff
  · intro hpartly
    revert hpartly
    simp only [all]
    split_ifs <;> simp_all
  · exact met_all_eq_zero
  · intro hunmet
    obtain ⟨part, hpart, hblocking⟩ :=
      exists_isBlocking_of_all ((Status.isBlocking_iff _).mpr (.inl hunmet))
    apply sum_pos_iff.mpr
    use part.total, List.mem_map_of_mem hpart
    exact Nat.zero_lt_of_lt ((h part hpart).met_lt_total hblocking)

/-- A conjunction with a blocking part is blocking, unless as much is met as can be counted. -/
theorem isBlocking_all_or_countLimit_le (h : ∀ part ∈ parts, part.IsConsistent) {part : Tally}
    (hpart : part ∈ parts) (hblocking : part.status.isBlocking) :
  (all parts).status.isBlocking ∨ countLimit ≤ (parts.map Tally.met).sum
  := by
  by_cases hwhole : (all parts).status.isBlocking
  · left
    exact hwhole
  · right
    obtain hmet | hunknown := (Status.not_isBlocking_iff _).mp hwhole
    · have hle : ∀ part ∈ parts, part.met ≤ part.total :=
        fun part hpart => (h part hpart).met_le_total
      apply countLimit_le_sum_met hle hpart ((h part hpart).met_lt_total hblocking) hmet
    · exact absurd hblocking (not_isBlocking_of_all_unknown hunknown part hpart)

/-- A conjunction of parts that are met is met. -/
theorem status_all_eq_met (hne : parts ≠ []) (h : ∀ part ∈ parts, part.IsConsistent)
    (hmet : ∀ part ∈ parts, part.status = .met) :
  (all parts).status = .met
  := by
  apply status_all_eq_met_iff.mpr
  constructor
  · obtain ⟨part, hpart⟩ := List.exists_mem_of_ne_nil _ hne
    apply sum_pos_iff.mpr
    use part.total, List.mem_map_of_mem hpart
    exact ((h part hpart).status_eq_met_iff.mp (hmet part hpart)).1
  · congr 1
    apply List.map_congr_left
    intro part hpart
    exact ((h part hpart).status_eq_met_iff.mp (hmet part hpart)).2

/-- The status is met exactly when all that counts is met. -/
structure IsCoherent (t : Tally) : Prop where
  met_le_total : t.met ≤ t.total
  status_eq_met_iff : t.status = .met ↔ t.met = t.total

/-- A tally that counts something is met exactly when all that counts is met. -/
theorem IsConsistent.isCoherent {t : Tally} (h : t.IsConsistent) (hpos : 0 < t.total) :
  t.IsCoherent
  := by
  constructor
  · exact h.met_le_total
  · rw [h.status_eq_met_iff]
    exact and_iff_right hpos

theorem isCoherent_any (parts : List Tally) :
  (any parts).IsCoherent
  := by
  apply (isConsistent_any parts).isCoherent
  simp [total_any]

/-- The parts of a conjunction that is met are met, unless the counts exceed the limit. -/
theorem status_eq_met_of_all
    (h : ∀ part ∈ parts, part.IsCoherent) (hlimit : (parts.map total).sum ≤ countLimit)
    (hmet : (all parts).status = .met) :
  ∀ part ∈ parts, part.status = .met
  := by
  have hle : ∀ part ∈ parts, part.met ≤ part.total := fun part hpart => (h part hpart).met_le_total
  intro part hpart
  apply (h part hpart).status_eq_met_iff.mpr
  by_contra hne
  have hlt := Nat.lt_of_le_of_ne (hle part hpart) hne
  have hsum := sum_met_lt_sum_total hle hpart hlt
  have hreached := countLimit_le_sum_met hle hpart hlt hmet
  omega

end Tally

namespace Tree

/-! ### Tallies of trees -/

theorem tally_negation (place : Place) (operand : Tree) :
  (Tree.negation place operand).tally = operand.tally.not
  := by
  rw [tally]

theorem tally_any (place : Place) (parts : List Tree) :
  (Tree.junction place .any parts).tally = .any (parts.map tally)
  := by
  rw [tally, tallies_eq_map]

/-- Groups are counted as conjunctions are. -/
theorem tally_all (place : Place) {kind : Junction} (hkind : kind ≠ .any) (parts : List Tree) :
  (Tree.junction place kind parts).tally = .all (parts.map tally)
  := by
  rw [tally, tallies_eq_map]
  exact hkind

/-- The counts and the status of a tree agree. -/
theorem isConsistent_tally (t : Tree) :
  t.tally.IsConsistent
  := by
  induction t using Tree.induction with
  | requirement _ verdict _ =>
    rw [tally]
    apply Tally.isConsistent_ofVerdict
  | negation _ _ ih =>
    rw [tally_negation]
    apply ih.not
  | junction place kind parts ih =>
    by_cases hkind : kind = .any
    · rw [hkind, tally_any]
      apply Tally.isConsistent_any
    · rw [tally_all place hkind]
      apply Tally.isConsistent_all
      exact List.forall_mem_map.mpr ih

theorem isConsistent_of_mem_map (parts : List Tree) :
  ∀ t ∈ parts.map tally, t.IsConsistent
  := by
  rw [List.forall_mem_map]
  intro part _
  exact part.isConsistent_tally

/-- At most as much is met as counts, and less if the tree is blocking. -/
theorem met_add_isBlocking_le_total (t : Tree) :
  t.tally.met + t.status.isBlocking.toNat ≤ t.tally.total
  := by
  by_cases hblocking : t.status.isBlocking
  · rw [hblocking]
    exact t.isConsistent_tally.met_lt_total hblocking
  · rw [Bool.eq_false_of_not_eq_true hblocking]
    exact t.isConsistent_tally.met_le_total

/-- A tree counts something if each inner node has a part. -/
theorem IsFull.total_pos {t : Tree} (h : t.IsFull) :
  0 < t.tally.total
  := by
  induction h with
  | requirement => simp [tally, Tally.ofStatus]
  | negation _ _ ih => rwa [tally_negation]
  | @junction kind parts place hpos _ ih =>
    by_cases hkind : kind = .any
    · simp [hkind, tally_any, Tally.total_any]
    · rw [tally_all place hkind]
      obtain ⟨part, hpart⟩ := List.exists_mem_of_length_pos hpos
      apply Tally.sum_pos_iff.mpr
      use part.tally.total, List.mem_map_of_mem (List.mem_map_of_mem hpart), ih part hpart

theorem IsFull.isCoherent_tally {t : Tree} (h : t.IsFull) :
  t.tally.IsCoherent
  := t.isConsistent_tally.isCoherent h.total_pos

/-! ### Statuses of trees -/

theorem status_requirement (place : Place) (verdict : Option Bool) (term : Term) :
  (Tree.requirement place verdict term).status = .ofVerdict verdict
  := by
  rw [status, tally, Tally.ofStatus]

theorem status_negation (place : Place) (operand : Tree) :
  (Tree.negation place operand).status = operand.status.inverted
  := by
  rw [status, tally_negation, Tally.not, status]

/-- A negation is blocking exactly when its operand is met. -/
theorem isBlocking_negation_iff {place : Place} {operand : Tree} :
  (Tree.negation place operand).status.isBlocking ↔ operand.status = .met
  := by
  rw [status_negation, Status.isBlocking_inverted_iff]

section Junction

variable {place : Place} {kind : Junction} {parts : List Tree}

/-- A blocking conjunction or group has a blocking part. -/
theorem exists_isBlocking_of_all
    (hkind : kind ≠ .any) (h : (Tree.junction place kind parts).status.isBlocking) :
  ∃ part ∈ parts, part.status.isBlocking
  := by
  rw [status, tally_all place hkind] at h
  obtain ⟨tally, htally, hblocking⟩ := Tally.exists_isBlocking_of_all h
  obtain ⟨part, hpart, rfl⟩ := List.mem_map.mp htally
  use part, hpart, hblocking

/-- A conjunction or group whose status is unknown has no blocking part. -/
theorem not_isBlocking_of_all_unknown
    (hkind : kind ≠ .any) (h : (Tree.junction place kind parts).status = .unknown) :
  ∀ part ∈ parts, ¬ part.status.isBlocking
  := by
  rw [status, tally_all place hkind] at h
  intro part hpart
  apply Tally.not_isBlocking_of_all_unknown h
  apply List.mem_map_of_mem hpart

/-- A blocking disjunction is unmet, and all its parts are blocking. -/
theorem isBlocking_of_any (h : (Tree.junction place .any parts).status.isBlocking) :
  (Tree.junction place .any parts).status = .unmet ∧ ∀ part ∈ parts, part.status.isBlocking
  := by
  constructor
  · revert h
    rw [status, tally_any, Tally.any]
    split_ifs <;> simp
  · rw [status, tally_any, Tally.isBlocking_any_iff] at h
    intro part hpart
    obtain ⟨hsatisfies, hunknown⟩ := h part.tally (List.mem_map_of_mem hpart)
    by_contra hpasses
    obtain hmet | hunknown' := part.status.not_isBlocking_iff.mp hpasses
    · apply hsatisfies
      apply (Tally.satisfies_iff _).mpr
      left
      exact hmet
    · exact hunknown hunknown'

/-- A disjunction is blocking exactly when all its parts are unmet. -/
theorem isBlocking_any_iff :
  (Tree.junction place .any parts).status.isBlocking ↔ ∀ part ∈ parts, part.status = .unmet
  := by
  rw [status, tally_any, Tally.isBlocking_any_iff, List.forall_mem_map]
  apply forall₂_congr
  intro part hpart
  have hpos := part.isConsistent_tally.met_pos_of_partly
  rw [Tally.satisfies_iff, status]
  cases hstatus : part.tally.status <;> simp_all [Nat.pos_iff_ne_zero]

/-- A disjunction that is met has a part that is met or that is met in part. -/
theorem exists_met_or_partly_of_any (h : (Tree.junction place .any parts).status = .met) :
  ∃ part ∈ parts, part.status = .met ∨ part.status = .partly
  := by
  rw [status, tally_any, Tally.status_any_eq_met_iff] at h
  obtain ⟨tally, htally, hsatisfies⟩ := h
  obtain ⟨part, hpart, rfl⟩ := List.mem_map.mp htally
  use part, hpart
  obtain hmet | ⟨hpartly, -⟩ := (Tally.satisfies_iff _).mp hsatisfies
  · left
    exact hmet
  · right
    exact hpartly

/-- Whatever counts as met in part has a part that does. -/
theorem exists_met_pos (h : 0 < (Tree.junction place kind parts).tally.met) :
  ∃ part ∈ parts, 0 < part.tally.met
  := by
  by_cases hkind : kind = .any
  · rw [hkind, tally_any, Tally.met_any_pos_iff] at h
    obtain ⟨tally, htally, hsatisfies⟩ := h
    obtain ⟨part, hpart, rfl⟩ := List.mem_map.mp htally
    use part, hpart
    obtain hmet | ⟨-, hpos⟩ := (Tally.satisfies_iff _).mp hsatisfies
    · exact part.isConsistent_tally.met_pos_of_met hmet
    · exact hpos
  · rw [tally_all place hkind, Tally.all, Tally.sum_pos_iff] at h
    simpa using h

end Junction

/-- Nothing counts as met in a tree that is unmet. -/
theorem met_eq_zero_of_unmet {t : Tree} (h : t.status = .unmet) :
  t.tally.met = 0
  := t.isConsistent_tally.met_eq_zero_of_unmet h

/-! ### Counts and leaves -/

theorem leafCount_negation (place : Place) (operand : Tree) :
  (Tree.negation place operand).leafCount = operand.leafCount
  := by
  rw [leafCount, leaves, leafCount]

theorem leafCount_junction (place : Place) (kind : Junction) (parts : List Tree) :
  (Tree.junction place kind parts).leafCount = (parts.map leafCount).sum
  := by
  rw [leafCount, leaves, leavesOf_eq_flatMap, List.length_flatMap]
  rfl

/-- A part has at most as many leaves as the whole. -/
theorem leafCount_le_of_mem (place : Place) (kind : Junction) {part : Tree} {parts : List Tree}
    (h : part ∈ parts) :
  part.leafCount ≤ (Tree.junction place kind parts).leafCount
  := by
  rw [leafCount_junction]
  apply List.le_sum_of_mem
  apply List.mem_map_of_mem h

theorem IsFull.leafCount_pos {t : Tree} (h : t.IsFull) :
  0 < t.leafCount
  := by
  induction h with
  | requirement _ verdict term => simp [leafCount, leaves]
  | negation place _ ih => rwa [leafCount_negation]
  | @junction kind parts place hpos _ ih =>
    obtain ⟨part, hpart⟩ := List.exists_mem_of_length_pos hpos
    apply Nat.lt_of_lt_of_le (ih part hpart)
    apply leafCount_le_of_mem place kind hpart

/-! ### Weights -/

mutual

/-- The weight of a tree. Requirements and disjunctions weigh one, a negation weighs what its
operand weighs, and conjunctions and groups weigh what their parts weigh together. -/
def weight : Tree → Nat
  | .requirement _ _ _ => 1
  | .negation _ operand => operand.weight
  | .junction _ .any _ => 1
  | .junction _ _ parts => weightOf parts

/-- The weight of some trees together. -/
def weightOf : List Tree → Nat
  | [] => 0
  | t :: rest => t.weight + weightOf rest

end

theorem weightOf_eq_sum (parts : List Tree) :
  weightOf parts = (parts.map weight).sum
  := by
  induction parts with
  | nil => rfl
  | cons t rest ih => rw [weightOf, ih, List.map_cons, List.sum_cons]

theorem weight_all (place : Place) {kind : Junction} (hkind : kind ≠ .any) (parts : List Tree) :
  (Tree.junction place kind parts).weight = (parts.map weight).sum
  := by
  rw [weight, weightOf_eq_sum]
  exact hkind

/-- The total count of a tree is its weight, cut at the largest count. -/
theorem total_eq_min_weight (t : Tree) :
  t.tally.total = min t.weight Tally.countLimit
  := by
  induction t using Tree.induction with
  | requirement _ verdict term => rfl
  | negation place operand ih =>
    rw [tally_negation, weight]
    exact ih
  | junction place kind parts ih =>
    by_cases hkind : kind = .any
    · subst hkind
      rw [tally_any, Tally.total_any, weight]
      rfl
    · rw [tally_all place hkind, weight_all place hkind, ← Tally.sum_map_min, Tally.total_all,
        List.map_map]
      congr 1
      exact List.map_congr_left ih

theorem total_le_weight (t : Tree) :
  t.tally.total ≤ t.weight
  := by
  rw [total_eq_min_weight]
  apply min_le_left

/-- A tree weighs at most as much as it has leaves, if there is a leaf below each disjunction. -/
theorem weight_le_leafCount_of_any {t : Tree}
    (h : ∀ (depth : Nat) (u : Tree), u.OccursIn depth t →
      u.connective? = some .or → 0 < u.leafCount) :
  t.weight ≤ t.leafCount
  := by
  induction t using Tree.induction with
  | requirement place verdict term => simp [weight, leafCount, leaves]
  | negation place operand ih =>
    rw [weight, leafCount_negation]
    exact ih fun depth u hu => h (depth + 1) u (.negation place hu)
  | junction place kind parts ih =>
    by_cases hkind : kind = .any
    · subst hkind
      rw [weight]
      exact h 0 _ .root rfl
    · rw [weight_all place hkind, leafCount_junction]
      apply List.sum_le_sum
      intro part hpart
      exact ih part hpart fun depth u hu => h depth u (.junction place kind hpart hu)

/-- A tree weighs at most as much as it has leaves, if each inner node has a part. -/
theorem IsFull.weight_le_leafCount {t : Tree} (h : t.IsFull) :
  t.weight ≤ t.leafCount
  := by
  apply weight_le_leafCount_of_any
  intro depth u hu _
  exact IsFull.leafCount_pos (h.of_occursIn hu)

/-- A tree counts at most as many parts as it has leaves. -/
theorem IsFull.total_le_leafCount {t : Tree} (h : t.IsFull) :
  t.tally.total ≤ t.leafCount
  := t.total_le_weight.trans h.weight_le_leafCount

theorem IsFull.isCoherent_of_mem_map {parts : List Tree} (hfull : ∀ part ∈ parts, part.IsFull) :
  ∀ t ∈ parts.map tally, t.IsCoherent
  := by
  rw [List.forall_mem_map]
  intro part hpart
  exact (hfull part hpart).isCoherent_tally

/-- The counts of some parts stay within the limit, if there are few leaves. -/
theorem IsFull.sum_total_le {place : Place} {kind : Junction} {parts : List Tree}
    (hfull : ∀ part ∈ parts, part.IsFull)
    (hsmall : (Tree.junction place kind parts).leafCount < 2 ^ 32) :
  ((parts.map tally).map Tally.total).sum ≤ Tally.countLimit
  := by
  rw [leafCount_junction] at hsmall
  have hle : (parts.map (·.tally.total)).sum ≤ (parts.map leafCount).sum :=
    List.sum_le_sum fun part hpart => (hfull part hpart).total_le_leafCount
  rw [List.map_map, Tally.countLimit]
  exact hle.trans (by omega)

/-- The parts of a conjunction or group that is met are met, if there are few leaves. -/
theorem IsFull.status_eq_met_of_mem
    {place : Place} {kind : Junction} (hkind : kind ≠ .any) {parts : List Tree}
    (hfull : ∀ part ∈ parts, part.IsFull)
    (hsmall : (Tree.junction place kind parts).leafCount < 2 ^ 32)
    (hmet : (Tree.junction place kind parts).status = .met) :
  ∀ part ∈ parts, part.status = .met
  := by
  rw [status, tally_all place hkind] at hmet
  have hcoherent := IsFull.isCoherent_of_mem_map hfull
  intro part hpart
  apply Tally.status_eq_met_of_all hcoherent (IsFull.sum_total_le hfull hsmall) hmet
  apply List.mem_map_of_mem hpart

/-- A conjunction or group of parts that are met is met. -/
theorem IsFull.status_eq_met_of_forall
    {place : Place} {kind : Junction} (hkind : kind ≠ .any) {parts : List Tree}
    (hfull : (Tree.junction place kind parts).IsFull)
    (hmet : ∀ part ∈ parts, part.status = .met) :
  (Tree.junction place kind parts).status = .met
  := by
  rw [status, tally_all place hkind]
  apply Tally.status_all_eq_met
  · cases hfull with
    | junction _ hpos _ => simpa using List.ne_nil_of_length_pos hpos
  · exact isConsistent_of_mem_map parts
  · exact List.forall_mem_map.mpr hmet

/-- In no tree below the root do more leaves count as met or block than there are. -/
def CountsLeaves (root : Tree) : Prop :=
  ∀ (depth : Nat) (t : Tree), t.OccursIn depth root →
    t.tally.met + t.status.isBlocking.toNat ≤ t.leafCount

theorem IsFull.countsLeaves {root : Tree} (h : root.IsFull) :
  root.CountsLeaves
  := by
  intro depth t ht
  exact t.met_add_isBlocking_le_total.trans (IsFull.total_le_leafCount (h.of_occursIn ht))

section Junction

variable {place : Place} {kind : Junction} {part : Tree} {parts : List Tree}

/-- Let at most as much be met in each part as some count of the part, and less if the part is
blocking. Then less is met than the counts add up to if a part is blocking. -/
theorem sum_met_lt {count : Tree → Nat}
    (h : ∀ part ∈ parts, part.tally.met + part.status.isBlocking.toNat ≤ count part)
    (hpart : part ∈ parts) (hblocking : part.status.isBlocking) :
  (parts.map (·.tally.met)).sum < (parts.map count).sum
  := by
  apply List.sum_lt_sum
  · intro part hpart
    exact Nat.le_of_add_right_le (h part hpart)
  · use part, hpart
    have hcount := h part hpart
    rwa [hblocking] at hcount

/-- A conjunction or group with a blocking part is blocking, unless as much is met as can be
counted. -/
theorem isBlocking_all_or_countLimit_le (place : Place) (hkind : kind ≠ .any)
    (hpart : part ∈ parts) (hblocking : part.status.isBlocking) :
  (Tree.junction place kind parts).status.isBlocking
    ∨ Tally.countLimit ≤ (parts.map (·.tally.met)).sum
  := by
  rw [status, tally_all place hkind]
  obtain hwhole | hlimit := Tally.isBlocking_all_or_countLimit_le (isConsistent_of_mem_map parts)
    (List.mem_map_of_mem hpart) hblocking
  · left
    exact hwhole
  · right
    rwa [List.map_map] at hlimit

/-- A conjunction or group whose weight can be counted is blocking exactly when a part is. -/
theorem isBlocking_all_iff_of_weight (hkind : kind ≠ .any)
    (hweight : (Tree.junction place kind parts).weight ≤ Tally.countLimit) :
  (Tree.junction place kind parts).status.isBlocking ↔ ∃ part ∈ parts, part.status.isBlocking
  := by
  constructor
  · exact exists_isBlocking_of_all hkind
  · rintro ⟨part, hpart, hblocking⟩
    obtain hwhole | hlimit := isBlocking_all_or_countLimit_le place hkind hpart hblocking
    · exact hwhole
    · have hlt : (parts.map (·.tally.met)).sum < (parts.map weight).sum := by
        apply sum_met_lt _ hpart hblocking
        intro part _
        exact part.met_add_isBlocking_le_total.trans part.total_le_weight
      rw [weight_all place hkind] at hweight
      omega

theorem CountsLeaves.of_mem (h : (Tree.junction place kind parts).CountsLeaves)
    (hpart : part ∈ parts) :
  part.CountsLeaves
  := by
  intro depth t ht
  apply h depth t (.junction place kind hpart ht)

/-- A conjunction or group that is met or unknown has no blocking part, if there are few leaves. -/
theorem CountsLeaves.not_isBlocking_of_mem (hkind : kind ≠ .any)
    (h : (Tree.junction place kind parts).CountsLeaves)
    (hsmall : (Tree.junction place kind parts).leafCount < 2 ^ 32)
    (hpasses : ¬ (Tree.junction place kind parts).status.isBlocking) :
  ∀ part ∈ parts, ¬ part.status.isBlocking
  := by
  intro part hpart hblocking
  obtain hwhole | hlimit := isBlocking_all_or_countLimit_le place hkind hpart hblocking
  · exact hpasses hwhole
  · have hlt : (parts.map (·.tally.met)).sum < (parts.map leafCount).sum :=
      sum_met_lt (fun part hpart => h.of_mem hpart 0 part .root) hpart hblocking
    rw [leafCount_junction] at hsmall
    rw [Tally.countLimit] at hlimit
    omega

end Junction

end Tree

end Prerequisite
