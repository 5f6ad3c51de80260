import Mathlib.Algebra.Group.Nat.Even
import Mathlib.Data.List.Flatten
import Prerequisite.Proofs.Blockers
import Prerequisite.Proofs.Verdict

/-!
# What is reported as missing

Each entry of a report comes from a leaf of the tree, no leaf is reported twice, and the entries
stand in the order of the leaves.  A leaf below an even number of negations is reported if it
fails, and one below an odd number if it holds.  So whatever is reported is true: the comparison
that an entry shows fails for the amounts that it shows, or it holds and the entry says that it
must not.
-/

namespace Prerequisite

/-- A leaf of a tree with its verdict, and the number of negations above it. -/
structure DeepLeaf where
  depth : Nat
  term : Term
  verdict : Option Bool

namespace DeepLeaf

/-- The leaf without the number of negations above it. -/
def leaf (l : DeepLeaf) : Term × Option Bool := (l.term, l.verdict)

/-- An odd number of negations stands above the leaf. -/
def isNegated (l : DeepLeaf) : Bool := Odd l.depth

/-- The leaf fails although it should hold, or it holds although it should fail. -/
def isAmiss (l : DeepLeaf) : Bool := l.verdict = some l.isNegated

/-- The report of the leaf. -/
def blocker (l : DeepLeaf) : Blocker := ⟨l.isNegated, l.term⟩

end DeepLeaf

namespace Tree

/-! ### Leaves below negations -/

mutual

/-- The leaves of a tree from left to right, when a number of negations stands above the tree. -/
def leavesBelow (depth : Nat) : Tree → List DeepLeaf
  | .requirement _ verdict term => [⟨depth, term, verdict⟩]
  | .negation _ operand => operand.leavesBelow (depth + 1)
  | .junction _ _ parts => leavesOfBelow depth parts

/-- The leaves of some trees from left to right, when a number of negations stands above them. -/
def leavesOfBelow (depth : Nat) : List Tree → List DeepLeaf
  | [] => []
  | t :: rest => t.leavesBelow depth ++ leavesOfBelow depth rest

end

theorem leavesOfBelow_eq_flatMap (depth : Nat) (parts : List Tree) :
  leavesOfBelow depth parts = parts.flatMap (leavesBelow depth)
  := by
  induction parts with
  | nil => rfl
  | cons t rest ih => rw [leavesOfBelow, ih, List.flatMap_cons]

theorem map_leaf_leavesBelow (depth : Nat) (t : Tree) :
  (t.leavesBelow depth).map DeepLeaf.leaf = t.leaves
  := by
  induction t using Tree.induction generalizing depth with
  | requirement place verdict term => rfl
  | negation place operand ih => rw [leavesBelow, leaves, ih]
  | junction place kind parts ih =>
    rw [leavesBelow, leaves, leavesOfBelow_eq_flatMap, leavesOf_eq_flatMap, List.map_flatMap]
    apply List.flatMap_congr
    intro part hpart
    apply ih part hpart

/-! ### Reported leaves -/

section Obstacles

variable {negated : Bool} {place : Place}

/-- Nothing is reported for a negation but what is reported for its operand. -/
theorem obstacles_negation_sublist {operand : Tree} :
  ((Tree.negation place operand).obstacles negated).Sublist (operand.obstacles (!negated))
  := by
  cases negated with
  | false =>
    change (Tree.negation place operand).blockers.Sublist operand.supporters
    rw [blockers_negation]
    split
    · apply List.Sublist.refl
    · apply List.nil_sublist
  | true => apply List.Sublist.refl

/-- Nothing is reported for a junction but what is reported for its parts, in their order. -/
theorem obstacles_junction_sublist {kind : Junction} {parts : List Tree} :
  ((Tree.junction place kind parts).obstacles negated).Sublist (parts.flatMap (obstacles negated))
  := by
  rw [obstacles_junction_eq]
  apply List.Sublist.flatMap List.filter_sublist

end Obstacles

/-- What is reported for a tree are leaves that are amiss, in their order. -/
theorem obstacles_sublist (depth : Nat) (t : Tree) :
  (t.obstacles (Odd depth)).Sublist
    (((t.leavesBelow depth).filter DeepLeaf.isAmiss).map DeepLeaf.blocker)
  := by
  induction t using Tree.induction generalizing depth with
  | requirement place verdict term =>
    rw [obstacles_requirement, leavesBelow]
    split
    case isTrue hverdict => simp [DeepLeaf.isAmiss, DeepLeaf.isNegated, DeepLeaf.blocker, hverdict]
    case isFalse => apply List.nil_sublist
  | negation place operand ih =>
    -- one more negation turns an even number of them into an odd one and the other way round
    have hodd : decide (Odd (depth + 1)) = !decide (Odd depth) := by
      rw [← decide_not, decide_eq_decide, Nat.odd_add_one]
    rw [leavesBelow]
    apply obstacles_negation_sublist.trans
    rw [← hodd]
    apply ih
  | junction place kind parts ih =>
    rw [leavesBelow, leavesOfBelow_eq_flatMap, List.filter_flatMap, List.map_flatMap]
    apply obstacles_junction_sublist.trans
    apply List.Sublist.flatMap_right
    intro part hpart
    apply ih part hpart

/-- The blockers of a tree are the reports of some of its leaves, in their order, and each of these
leaves is amiss. -/
theorem exists_sublist_of_blockers (t : Tree) :
  ∃ reported : List DeepLeaf, reported.Sublist (t.leavesBelow 0)
    ∧ (∀ l ∈ reported, l.isAmiss) ∧ t.blockers = reported.map DeepLeaf.blocker
  := by
  have hblockers := obstacles_sublist 0 t
  obtain ⟨reported, hreported, heq⟩ := List.sublist_map_iff.mp hblockers
  refine ⟨reported, hreported.trans List.filter_sublist, ?_, heq⟩
  intro l hl
  exact (List.mem_filter.mp (hreported.subset hl)).2

end Tree

/-! ### Genuine entries -/

namespace Shortfall

/-- The operator of the entry begins with the word for a negation. -/
def isPrefixed (entry : Shortfall) : Bool := "NOT ".toList.isPrefixOf entry.operator.toList

/-- The entry reports a leaf of a tree that asks for the comparison. It shows the stat and the bound
of the leaf and the amount in the snapshot. It begins with the word for a negation if the leaf
stands below an odd number of negations and holds, and otherwise the leaf stands below an even
number of negations and fails. -/
structure Reports (s : Snapshot) (entry : Shortfall) (l : DeepLeaf) (comparison : Comparison) :
    Prop where
  kind_eq : l.term.kind = .stat (some comparison)
  stat_eq : entry.stat = l.term.criterion.stat
  statName_eq : entry.statName = l.term.statName
  required_eq : entry.required = l.term.displayValue
  current_eq : entry.current = s.reading l.term.criterion.stat
  of_isPrefixed : entry.isPrefixed →
    entry.operator = "NOT " ++ comparison.symbol ∧ Odd l.depth ∧ l.verdict = some true
      ∧ comparison.holds entry.current entry.required
  of_not_isPrefixed : ¬ entry.isPrefixed →
    entry.operator = comparison.symbol ∧ Even l.depth ∧ l.verdict = some false
      ∧ ¬ comparison.holds entry.current entry.required

end Shortfall

theorem Criterion.symbol_of_kind {c : Criterion} {comparison : Comparison}
    (h : c.kind = .stat (some comparison)) :
  c.symbol = comparison.symbol
  := by
  rw [symbol, h]

/-- No sign of a comparison begins with the word for a negation, so that an operator begins with it
only if it is negated. -/
theorem Comparison.isPrefixOf_operator (comparison : Comparison) (negated : Bool) :
  "NOT ".toList.isPrefixOf
      (if negated then Connective.not.keyword ++ " " ++ comparison.symbol
        else comparison.symbol).toList
    = negated
  := by
  cases negated <;> cases comparison <;> decide

theorem Blocker.isPrefixed_shortfall {b : Blocker} {comparison : Comparison}
    (h : b.term.symbol = comparison.symbol) (s : Snapshot) :
  (b.shortfall s).isPrefixed = b.negated
  := by
  rw [Shortfall.isPrefixed, shortfall, h]
  apply comparison.isPrefixOf_operator

/-- The report of a leaf that is amiss is genuine. -/
theorem DeepLeaf.exists_reports {names : Names} {c : Criterion} {s : Snapshot} {l : DeepLeaf}
    (hterm : l.term = c.term names) (hverdict : l.verdict = l.term.verdict (some s))
    (hamiss : l.isAmiss) :
  ∃ comparison, (l.blocker.shortfall s).Reports s l comparison
  := by
  have hverdict' : l.verdict = some l.isNegated := of_decide_eq_true hamiss
  obtain ⟨comparison, hkind, hholds⟩ := Term.verdict_eq_some_iff.mp (hverdict.symm.trans hverdict')
  have hsymbol : l.term.symbol = comparison.symbol := by
    rw [hterm] at hkind ⊢
    apply Criterion.symbol_of_kind hkind
  have hprefixed : (l.blocker.shortfall s).isPrefixed = l.isNegated :=
    Blocker.isPrefixed_shortfall hsymbol s
  use comparison
  constructor
  case kind_eq => exact hkind
  case stat_eq => rfl
  case statName_eq => rfl
  case required_eq => rfl
  case current_eq => rfl
  case of_isPrefixed =>
    rw [hprefixed]
    intro hnegated
    rw [hnegated] at hverdict' hholds
    refine ⟨?_, of_decide_eq_true hnegated, hverdict', hholds⟩
    simp [Blocker.shortfall, blocker, hnegated, hsymbol, Connective.keyword]
  case of_not_isPrefixed =>
    rw [hprefixed]
    intro hnegated
    rw [Bool.eq_false_of_not_eq_true hnegated] at hverdict' hholds
    refine ⟨?_, ?_, hverdict', ne_true_of_eq_false hholds⟩
    · simp [Blocker.shortfall, blocker, hnegated, hsymbol]
    · rw [← Nat.not_odd_iff_even]
      simpa [isNegated] using hnegated

/-- Each entry that is reported for the tree of some criteria comes from a leaf of its own, and the
entries stand in the order of their leaves. An entry that begins with the word for a negation comes
from a leaf that stands below an odd number of negations and holds, and any other one from a leaf
that stands below an even number of them and fails. What an entry shows is what the leaf asks for
and what the snapshot says, and the leaf is always a comparison: nothing else is reported. -/
theorem shortfalls_of_build? {names : Names} {criteria : List Criterion} {s : Snapshot} {t : Tree}
    (h : Tree.build? names (some s) criteria = some t) :
  (t.leavesBelow 0).map DeepLeaf.leaf = t.leaves
  ∧ ∃ reported : List DeepLeaf, reported.Sublist (t.leavesBelow 0)
    ∧ List.Forall₂ (fun entry l => ∃ comparison, Shortfall.Reports s entry l comparison)
      (t.shortfalls s) reported
  := by
  use t.map_leaf_leavesBelow 0
  obtain ⟨reported, hsublist, hamiss, hblockers⟩ := t.exists_sublist_of_blockers
  use reported, hsublist
  rw [Tree.shortfalls, hblockers, List.map_map, List.forall₂_map_left_iff, List.forall₂_same]
  intro l hl
  have hleaf : l.leaf ∈ t.leaves := by
    rw [← t.map_leaf_leavesBelow 0]
    exact List.mem_map_of_mem (hsublist.subset hl)
  have hverdict : l.verdict = l.term.verdict (some s) := Tree.verdict_of_mem_leaves h hleaf
  rw [Tree.leaves_of_build? h] at hleaf
  obtain ⟨term, hterm, heq⟩ := List.mem_map.mp hleaf
  obtain ⟨c, -, rfl⟩ := List.mem_map.mp (List.mem_filter.mp hterm).1
  exact l.exists_reports (congrArg Prod.fst heq).symm hverdict (hamiss l hl)

/-- Below one negation the conjunct that holds is reported, and below two the one that fails. -/
theorem shortfalls_below_negations :
  let criteria : List Criterion :=
    [⟨0, 1, 0, 1⟩, ⟨1, 2, 0, 2⟩, .sentinel 2 4, ⟨3, 3, 0, 3⟩, .sentinel 4 3, .sentinel 5 42,
      ⟨6, 4, 2, 4⟩, .sentinel 7 42, .sentinel 8 42, .sentinel 9 4]
  let s : Snapshot := (∅ : Snapshot).insert 1 1
  ∃ t, Tree.build? .none (some s) criteria = some t
    ∧ (t.shortfalls s).map (fun entry => (entry.stat, entry.operator)) = [(1, "NOT ="), (4, "≥")]
    ∧ ∃ reported : List DeepLeaf, reported.Sublist (t.leavesBelow 0)
      ∧ List.Forall₂ (fun entry l => ∃ comparison, Shortfall.Reports s entry l comparison)
        (t.shortfalls s) reported
  := by
  intro criteria s
  have hbuilt : Tree.build? .none (some s) criteria = some _ := rfl
  refine ⟨_, hbuilt, by decide, ?_⟩
  exact (shortfalls_of_build? hbuilt).2

end Prerequisite
