import Mathlib.Algebra.Group.Nat.Even
import Prerequisite.Proofs.Tree.Tallies

/-!
# Statuses and truth

A tree is a formula of propositional logic in which the truth of an unknown requirement is open.
A status is sound if the formula has the truth value that the status tells, whatever the truth of
the unknown requirements.  It need not be, because a disjunction is met as soon as it has a
conjunction among its parts that is met in part.  Such a disjunction claims too much, and a negation
above it too little.  So blocking statuses are sound as long as these disjunctions occur below an
even number of negations only, and met statuses as long as they occur below an odd number only.
-/

namespace Prerequisite.Tree

/-! ### Truth -/

mutual

/-- The truth of a tree. The unknown requirements are true or false as they are chosen to be, each
by the path from the root to the requirement, which consists of the ranks of the parts on it. -/
def holds (choice : List Nat → Bool) : Tree → Bool
  | .requirement _ verdict _ => verdict.getD (choice [])
  | .negation _ operand => !operand.holds fun path => choice (0 :: path)
  | .junction _ .any parts => (truths choice 0 parts).any id
  | .junction _ _ parts => (truths choice 0 parts).all id

/-- The truth of some trees, of which the first one has a given rank. -/
def truths (choice : List Nat → Bool) (rank : Nat) : List Tree → List Bool
  | [] => []
  | t :: rest => (t.holds fun path => choice (rank :: path)) :: truths choice (rank + 1) rest

end

/-- The tree has the truth value for every choice of the unknown requirements. -/
def IsForced (value : Bool) (t : Tree) : Prop := ∀ choice, t.holds choice = value

section Truth

variable {value : Bool} {place : Place} {kind : Junction} {part : Tree} {parts : List Tree}

theorem mem_truths_of_isForced
    (hpart : part ∈ parts) (h : part.IsForced value) (choice : List Nat → Bool) (rank : Nat) :
  value ∈ truths choice rank parts
  := by
  induction parts generalizing rank with
  | nil => cases hpart
  | cons t rest ih =>
    rw [truths]
    rcases List.mem_cons.mp hpart with rfl | hrest
    · rw [h]
      exact List.mem_cons_self
    · apply List.mem_cons_of_mem
      apply ih hrest

theorem eq_of_mem_truths
    (h : ∀ part ∈ parts, part.IsForced value) {choice : List Nat → Bool} {rank : Nat} {truth : Bool}
    (htruth : truth ∈ truths choice rank parts) :
  truth = value
  := by
  induction parts generalizing rank with
  | nil => cases htruth
  | cons t rest ih =>
    rw [truths] at htruth
    rcases List.mem_cons.mp htruth with rfl | hrest
    · apply h t List.mem_cons_self
    · apply ih (fun u hu => h u (List.mem_cons_of_mem _ hu)) hrest

theorem isForced_requirement (value : Bool) (place : Place) (term : Term) :
  (Tree.requirement place (some value) term).IsForced value
  := by
  intro choice
  rfl

theorem IsForced.negation {operand : Tree} (h : operand.IsForced value) (place : Place) :
  (Tree.negation place operand).IsForced !value
  := by
  intro choice
  rw [holds, h]

theorem isForced_any_true (hpart : part ∈ parts) (h : part.IsForced true) :
  (Tree.junction place .any parts).IsForced true
  := by
  intro choice
  rw [holds, List.any_eq_true]
  use true, mem_truths_of_isForced hpart h choice 0
  rfl

theorem isForced_any_false (h : ∀ part ∈ parts, part.IsForced false) :
  (Tree.junction place .any parts).IsForced false
  := by
  intro choice
  rw [holds, List.any_eq_false]
  intro truth htruth
  rw [eq_of_mem_truths h htruth]
  simp

/-- Groups are as true as conjunctions are. -/
theorem holds_all (hkind : kind ≠ .any) (choice : List Nat → Bool) :
  (Tree.junction place kind parts).holds choice = (truths choice 0 parts).all id
  := by
  rw [holds]
  exact hkind

theorem isForced_all_true (hkind : kind ≠ .any) (h : ∀ part ∈ parts, part.IsForced true) :
  (Tree.junction place kind parts).IsForced true
  := by
  intro choice
  rw [holds_all hkind, List.all_eq_true]
  intro truth htruth
  exact eq_of_mem_truths h htruth

theorem isForced_all_false (hkind : kind ≠ .any) (hpart : part ∈ parts) (h : part.IsForced false) :
  (Tree.junction place kind parts).IsForced false
  := by
  intro choice
  rw [holds_all hkind, List.all_eq_false]
  use false, mem_truths_of_isForced hpart h choice 0
  simp

end Truth

/-! ### Relaxed disjunctions -/

/-- The tree is a disjunction, and one of its parts is a conjunction. -/
def IsRelaxed (t : Tree) : Prop :=
  t.connective? = some .or ∧ ∃ part ∈ t.children, part.connective? = some .and

/-- No relaxed disjunction occurs in the tree below a number of negations with the property. -/
def IsStrict (P : Nat → Prop) (t : Tree) : Prop :=
  ∀ depth u, OccursIn u depth t → P depth → ¬ u.IsRelaxed

section Strict

variable {P : Nat → Prop} {place : Place}

@[simp]
theorem isStrict_requirement (place : Place) (verdict : Option Bool) (term : Term) :
  (Tree.requirement place verdict term).IsStrict P
  := by
  intro depth u hu _
  cases hu
  simp [IsRelaxed, connective?]

@[simp]
theorem isStrict_negation_iff {operand : Tree} :
  (Tree.negation place operand).IsStrict P ↔ operand.IsStrict fun depth => P (depth + 1)
  := by
  constructor
  · intro h depth u hu
    apply h (depth + 1) u
    exact .negation place hu
  · intro h depth u hu
    cases hu with
    | root => simp [IsRelaxed, connective?]
    | negation _ hu => apply h _ u hu

@[simp]
theorem isStrict_junction_iff {kind : Junction} {parts : List Tree} :
  (Tree.junction place kind parts).IsStrict P
    ↔ (P 0 → ¬ (Tree.junction place kind parts).IsRelaxed) ∧ ∀ part ∈ parts, part.IsStrict P
  := by
  constructor
  · intro h
    use h 0 _ .root
    intro part hpart depth u hu
    apply h depth u
    exact .junction place kind hpart hu
  · rintro ⟨hroot, hparts⟩ depth u hu
    cases hu with
    | root => exact hroot
    | junction _ _ hpart hu => apply hparts _ hpart depth u hu

/-- No part of a disjunction that is not relaxed is a conjunction. -/
theorem connective?_ne_and_of_not_isRelaxed {part : Tree} {parts : List Tree}
    (h : ¬ (Tree.junction place .any parts).IsRelaxed) (hpart : part ∈ parts) :
  part.connective? ≠ some .and
  := by
  intro hand
  apply h
  use rfl, part, hpart

end Strict

/-- In an expression, only a conjunction is met in part. -/
theorem IsExpression.connective?_eq_and
    {t : Tree} (h : t.IsExpression) (hpartly : t.status = .partly) :
  t.connective? = some .and
  := by
  cases h with
  | requirement place verdict term =>
    rcases verdict with _ | _ | _ <;>
      simp [status, tally, Tally.ofStatus, Status.ofVerdict] at hpartly
  | @negation operand place _ =>
    rw [status_negation] at hpartly
    cases hstatus : operand.status <;> simp [hstatus, Status.inverted] at hpartly
  | @junction kind parts place hallowed _ =>
    cases kind with
    | all => rfl
    | any =>
      have hunmet := (isBlocking_of_any ((Status.isBlocking_iff _).mpr (.inr hpartly))).1
      simp [hunmet] at hpartly
    | group => exact absurd rfl hallowed.1

/-! ### Soundness -/

/-- A blocking status or a met one tells the truth about the tree, unless the tree contains relaxed
disjunctions below the wrong number of negations. -/
structure IsSound (t : Tree) : Prop where
  isForced_false : t.IsStrict Odd → t.status.isBlocking → t.IsForced false
  isForced_true : t.IsStrict Even → t.status = .met → t.IsForced true

theorem isSound_requirement (place : Place) (verdict : Option Bool) (term : Term) :
  (Tree.requirement place verdict term).IsSound
  := by
  constructor
  · intro _ hblocking
    rw [status_requirement, Status.isBlocking_ofVerdict_iff] at hblocking
    rw [hblocking]
    apply isForced_requirement
  · intro _ hmet
    rw [status_requirement, Status.ofVerdict_eq_met_iff] at hmet
    rw [hmet]
    apply isForced_requirement

/-- A negation exchanges truth and falsity, and even and odd numbers of negations. -/
theorem IsSound.negation {operand : Tree} (h : operand.IsSound) (place : Place) :
  (Tree.negation place operand).IsSound
  := by
  constructor
  · intro hstrict hblocking
    have hmet : operand.status = .met := isBlocking_negation_iff.mp hblocking
    have hoperand : operand.IsStrict Even := by
      simpa [Nat.odd_add_one] using hstrict
    exact (h.isForced_true hoperand hmet).negation place
  · intro hstrict hmet
    have hunmet : operand.status = .unmet := by
      rwa [status_negation, Status.inverted_eq_met_iff] at hmet
    have hoperand : operand.IsStrict Odd := by
      simpa [Nat.even_add_one] using hstrict
    have hblocking := (Status.isBlocking_iff _).mpr (.inl hunmet)
    exact (h.isForced_false hoperand hblocking).negation place

section Junction

variable {place : Place} {kind : Junction} {parts : List Tree}

/-- The part that makes a disjunction met is met itself, or else the disjunction is relaxed. -/
theorem isSound_any
    (hparts : ∀ part ∈ parts, part.IsExpression) (h : ∀ part ∈ parts, part.IsSound) :
  (Tree.junction place .any parts).IsSound
  := by
  constructor
  · intro hstrict hblocking
    rw [isStrict_junction_iff] at hstrict
    apply isForced_any_false
    intro part hpart
    apply (h part hpart).isForced_false (hstrict.2 part hpart)
    exact (isBlocking_of_any hblocking).2 part hpart
  · intro hstrict hmet
    rw [isStrict_junction_iff] at hstrict
    obtain ⟨part, hpart, hstatus⟩ := exists_met_or_partly_of_any hmet
    obtain hmet | hpartly := hstatus
    · apply isForced_any_true hpart
      apply (h part hpart).isForced_true (hstrict.2 part hpart) hmet
    · have hne := connective?_ne_and_of_not_isRelaxed (hstrict.1 Even.zero) hpart
      exact absurd (IsExpression.connective?_eq_and (hparts part hpart) hpartly) hne

/-- All parts of a conjunction that is met are met, since the counts are exact. -/
theorem isSound_all
    (hkind : kind ≠ .any) (hfull : ∀ part ∈ parts, part.IsFull)
    (hsmall : (Tree.junction place kind parts).leafCount < 2 ^ 32)
    (h : ∀ part ∈ parts, part.IsSound) :
  (Tree.junction place kind parts).IsSound
  := by
  constructor
  · intro hstrict hblocking
    rw [isStrict_junction_iff] at hstrict
    obtain ⟨part, hpart, hblocking⟩ := exists_isBlocking_of_all hkind hblocking
    apply isForced_all_false hkind hpart
    apply (h part hpart).isForced_false (hstrict.2 part hpart) hblocking
  · intro hstrict hmet
    rw [isStrict_junction_iff] at hstrict
    have hall := IsFull.status_eq_met_of_mem hkind hfull hsmall hmet
    apply isForced_all_true hkind
    intro part hpart
    apply (h part hpart).isForced_true (hstrict.2 part hpart) (hall part hpart)

end Junction

theorem IsExpression.isSound {t : Tree} (h : t.IsExpression) (hsmall : t.leafCount < 2 ^ 32) :
  t.IsSound
  := by
  -- the two halves go through the induction together, as a negation exchanges them
  induction h with
  | requirement place verdict term => apply isSound_requirement
  | negation place _ ih =>
    rw [leafCount_negation] at hsmall
    apply (ih hsmall).negation
  | @junction kind parts place _ hparts ih =>
    have hsound : ∀ part ∈ parts, part.IsSound := by
      intro part hpart
      apply ih part hpart
      exact (leafCount_le_of_mem place kind hpart).trans_lt hsmall
    by_cases hkind : kind = .any
    · subst hkind
      apply isSound_any hparts hsound
    · have hfull : ∀ part ∈ parts, part.IsFull :=
        fun part hpart => IsExpression.isFull (hparts part hpart)
      apply isSound_all hkind hfull hsmall hsound

/-- The tree of some criteria is sound if it has fewer leaves than can be counted. If no relaxed
disjunction occurs below an odd number of negations then a blocking tree is false whatever the
unknown requirements are, and if none occurs below an even number of negations then a tree that is
met is true whatever they are. -/
theorem isForced_of_status
    {names : Names} {stats : Option Snapshot} {criteria : List Criterion} {t : Tree}
    (hbuilt : build? names stats criteria = some t) (hsmall : t.leafCount < 2 ^ 32) :
  (t.IsStrict Odd → t.status.isBlocking → t.IsForced false)
  ∧ (t.IsStrict Even → t.status = .met → t.IsForced true)
  := by
  have hsound : t.IsSound := by
    obtain hexpression | ⟨place, parts, rfl, hparts⟩ := isExpression_or_group_of_build? hbuilt
    · apply IsExpression.isSound hexpression hsmall
    · have hfull : ∀ part ∈ parts, part.IsFull := fun part hpart => (hparts part hpart).isFull
      apply isSound_all (by simp) hfull hsmall
      intro part hpart
      apply IsExpression.isSound (hparts part hpart)
      exact (leafCount_le_of_mem place .group hpart).trans_lt hsmall
  use hsound.isForced_false, hsound.isForced_true

/-- The negation of a relaxed disjunction is true if it is met, although one of the requirements is
unknown. -/
theorem isForced_negation_of_relaxed :
  ∃ t, build? .none (some ∅)
      [⟨0, 1, 0, 1⟩, ⟨1, 0, 26, 1⟩, .sentinel 2 4, ⟨3, 3, 0, 3⟩, .sentinel 4 3, .sentinel 5 42]
      = some t
    ∧ t.IsStrict Even ∧ ¬ t.IsStrict Odd ∧ t.status = .met ∧ t.IsForced true
  := by
  let conjunction : Tree := .junction ⟨2, false⟩ .all
    [.requirement ⟨3, false⟩ (some false) (Criterion.term .none ⟨0, 1, 0, 1⟩),
      .requirement ⟨3, true⟩ none (Criterion.term .none ⟨1, 0, 26, 1⟩)]
  let disjunction : Tree := .junction ⟨1, true⟩ .any
    [conjunction, .requirement ⟨2, true⟩ (some false) (Criterion.term .none ⟨3, 3, 0, 3⟩)]
  have hbuilt : build? .none (some ∅)
      [⟨0, 1, 0, 1⟩, ⟨1, 0, 26, 1⟩, .sentinel 2 4, ⟨3, 3, 0, 3⟩, .sentinel 4 3, .sentinel 5 42]
      = some (.negation ⟨0, true⟩ disjunction) := rfl
  have heven : (Tree.negation ⟨0, true⟩ disjunction).IsStrict Even := by
    simp [disjunction, conjunction]
  have hodd : ¬ (Tree.negation ⟨0, true⟩ disjunction).IsStrict Odd := by
    simp [disjunction, conjunction, IsRelaxed, connective?, children]
  use .negation ⟨0, true⟩ disjunction, hbuilt, heven, hodd, rfl
  apply (isForced_of_status hbuilt (by decide)).2 heven rfl

-- Without the condition, a disjunction can be met although it is false.
example (fails holds : Term) :
  let t := Tree.any [.all [.requirement {} (some true) holds, .requirement {} (some false) fails],
    .requirement {} (some false) fails]
  t.status = .met ∧ t.IsForced false
  := by
  constructor
  · rfl
  · intro choice
    rfl

end Prerequisite.Tree
