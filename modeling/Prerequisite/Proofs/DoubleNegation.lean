import Prerequisite.Proofs.Blockers
import Prerequisite.Proofs.Tree.Agreement

/-!
# Double negation

A tree that is negated twice decides as the tree does, and it is reported in the same way, unless
the tree is met in part.  The negation of what is met in part is unknown, and it stays unknown when
it is negated again: so two negations let an action pass that is refused without them.
-/

namespace Prerequisite

theorem Status.inverted_inverted (s : Status) :
  s.inverted.inverted = if s = .partly then .unknown else s
  := by
  cases s <;> rfl

namespace Tree

theorem status_not_not (t : Tree) :
  t.not.not.status = if t.status = .partly then .unknown else t.status
  := by
  rw [Tree.not, Tree.not, status_negation, status_negation, Status.inverted_inverted]

/-- What is reported for the operand of two negations is reported if it is unmet. -/
theorem blockers_not_not (t : Tree) :
  t.not.not.blockers = if t.status = .unmet then t.blockers else []
  := by
  rw [Tree.not, blockers_negation, Tree.not, status_negation]
  simp only [Status.inverted_eq_met_iff]
  rfl

/-- A tree with few leaves that is met or unknown has no blockers. -/
theorem HasFewLeaves.blockers_eq_nil {t : Tree} (h : t.HasFewLeaves)
    (hpasses : ¬ t.status.isBlocking) :
  t.blockers = []
  := by
  apply blockers_eq_nil_of_parts _ hpasses
  rintro place kind parts rfl hkind part hpart hblocking
  apply hpasses
  exact (isBlocking_all_iff_of_weight hkind h.weight_le).mpr ⟨part, hpart, hblocking⟩

/-- Two negations before a tree with few leaves change neither whether it is blocking nor what is
missing, unless the tree is met in part. If it is, then it is unknown below two negations, and
nothing is reported. -/
theorem shortfalls_not_not {t : Tree} (hsmall : t.HasFewLeaves) :
  (t.status ≠ .partly →
    (t.not.not.status.isBlocking ↔ t.status.isBlocking)
      ∧ ∀ s : Snapshot, t.not.not.shortfalls s = t.shortfalls s)
  ∧ (t.status = .partly →
    t.not.not.status = .unknown ∧ ∀ s : Snapshot, t.not.not.shortfalls s = [])
  := by
  constructor
  · intro hpartly
    constructor
    · rw [status_not_not, if_neg hpartly]
    · intro s
      rw [shortfalls, shortfalls, blockers_not_not]
      split
      case isTrue => rfl
      case isFalse hunmet =>
        have hpasses : ¬ t.status.isBlocking := by simp [hunmet, hpartly]
        rw [hsmall.blockers_eq_nil hpasses]
  · intro hpartly
    constructor
    · rw [status_not_not, if_pos hpartly]
    · intro s
      rw [shortfalls, blockers_not_not, hpartly]
      rfl

/-- Below two negations, an unmet choice is reported alternative by alternative, with what is met
below a third negation. -/
theorem shortfalls_not_not_of_unmet :
  let leaf (verdict : Bool) (stat : Int64) :=
    Tree.requirement {} (some verdict) (Criterion.term .none ⟨0, stat, 0, 1⟩)
  let t := Tree.any [.all [leaf false 1, leaf false 2], .not (leaf true 3)]
  t.not.not.status.isBlocking
    ∧ (t.not.not.shortfalls ∅).map (fun entry => (entry.stat, entry.operator))
      = [(1, "="), (2, "="), (3, "NOT =")]
  := by
  intro leaf t
  obtain ⟨hblocking, hshortfalls⟩ := (shortfalls_not_not (t := t) (.inl (by decide))).1 (by decide)
  rw [hblocking, hshortfalls]
  decide

/-- A conjunction that is met in part is blocking, but it is not below two negations. -/
theorem not_isBlocking_not_not_of_partly :
  let s : Snapshot := (∅ : Snapshot).insert 1 1
  let t := Tree.all
    [ofTerm (some s) (Criterion.term .none ⟨0, 1, 0, 1⟩),
      ofTerm (some s) (Criterion.term .none ⟨1, 2, 0, 2⟩)]
  t.IsConstructed ∧ t.leafCount = 2
    ∧ t.status.isBlocking ∧ (t.shortfalls s).map (·.stat) = [2]
    ∧ ¬ t.not.not.status.isBlocking ∧ t.not.not.shortfalls s = []
  := by
  intro s t
  refine ⟨.and (.requirement _ _) (.requirement _ _), rfl, ?_, ?_, ?_, ?_⟩
  all_goals decide

end Tree

end Prerequisite
