import Prerequisite.Proofs.Reevaluation
import Prerequisite.Proofs.Shortfalls

/-!
# What is read of a snapshot

A snapshot is read in two places: where a leaf compares the amount of a stat with a bound, and where
a leaf is reported with the amount of its stat.  Only comparisons are reported, so that the amounts
of the compared stats are all that a tree and the outcome of a check depend on.  A gate, a probe and
an unknown operator name a stat as well, but its amount is not read.
-/

namespace Prerequisite

/-! ### Compared stats -/

/-- The stat whose amount the term compares with a bound. -/
def Term.comparedStat? (t : Term) : Option Int64 :=
  t.comparison?.map fun _ => t.criterion.stat

/-- The stats whose amounts some terms compare with bounds. -/
def comparedStats (terms : List Term) : List Int64 := terms.filterMap Term.comparedStat?

/-- The stats whose amounts the requirements of a tree compare with bounds. -/
def Tree.comparedStats (t : Tree) : List Int64 :=
  Prerequisite.comparedStats (t.leaves.map Prod.fst)

/-- A term that is decided compares the amount of its stat. -/
theorem Term.comparedStat?_eq_of_verdict {t : Term} {s : Snapshot} {holds : Bool}
    (h : t.verdict (some s) = some holds) :
  t.comparedStat? = some t.criterion.stat
  := by
  obtain ⟨comparison, hkind, -⟩ := Term.verdict_eq_some_iff.mp h
  rw [comparedStat?, Term.comparison?_eq_some_iff.mpr hkind, Option.map_some]

theorem Term.comparedStat?_eq_none_of_connective {t : Term} (h : ¬ t.isOperand) :
  t.comparedStat? = none
  := by
  rw [isOperand, connective?] at h
  rw [comparedStat?, comparison?]
  cases hkind : t.kind <;> simp_all

theorem mem_comparedStats_iff {terms : List Term} {stat : Int64} :
  stat ∈ comparedStats terms ↔ ∃ term ∈ terms, term.comparedStat? = some stat
  := List.mem_filterMap

theorem comparedStats_filter_isOperand (terms : List Term) :
  comparedStats (terms.filter Term.isOperand) = comparedStats terms
  := by
  rw [comparedStats, comparedStats, List.filterMap_filter]
  apply List.filterMap_congr
  intro term _
  split
  case isTrue => rfl
  case isFalse h => rw [Term.comparedStat?_eq_none_of_connective h]

namespace Tree

theorem mem_comparedStats_of_mem_leaves {t : Tree} {leaf : Term × Option Bool}
    (hleaf : leaf ∈ t.leaves) {stat : Int64} (h : leaf.1.comparedStat? = some stat) :
  stat ∈ t.comparedStats
  := by
  apply mem_comparedStats_iff.mpr
  use leaf.1, List.mem_map_of_mem hleaf

theorem comparedStats_subset_of_mem {place : Place} {kind : Junction} {parts : List Tree}
    {part : Tree} (hpart : part ∈ parts) :
  part.comparedStats ⊆ (Tree.junction place kind parts).comparedStats
  := by
  intro stat hstat
  obtain ⟨term, hterm, hcompared⟩ := mem_comparedStats_iff.mp hstat
  obtain ⟨leaf, hleaf, rfl⟩ := List.mem_map.mp hterm
  apply mem_comparedStats_of_mem_leaves _ hcompared
  apply mem_leaves_junction_iff.mpr
  use part

/-- The tree of some criteria compares the stats that the criteria compare. -/
theorem comparedStats_of_build?
    {names : Names} {stats : Option Snapshot} {criteria : List Criterion} {t : Tree}
    (h : build? names stats criteria = some t) :
  t.comparedStats = Prerequisite.comparedStats (terms names criteria)
  := by
  rw [comparedStats, leaves_of_build? h, List.map_map,
    ← comparedStats_filter_isOperand (terms names criteria)]
  congr 1
  apply List.map_id

end Tree

/-! ### Snapshots that agree -/

/-- Both snapshots give the same amount to each of the stats. -/
def Snapshot.AgreeOn (stats : List Int64) (s s' : Snapshot) : Prop :=
  ∀ stat ∈ stats, s.reading stat = s'.reading stat

/-- A snapshot agrees with itself when zeros are dropped and other stats are added. -/
theorem Snapshot.agreeOn_insertMany_filter
    {stats : List Int64} {keep : Int64 → Int64 → Bool} {added : List (Int64 × Int64)}
    (hkeep : ∀ stat amount, amount ≠ 0 → keep stat amount)
    (hadded : ∀ entry ∈ added, entry.1 ∉ stats) (s : Snapshot) :
  AgreeOn stats s ((s.filter keep).insertMany added)
  := by
  intro stat hstat
  have hother : (added.map Prod.fst).contains stat = false := by
    rw [List.contains_eq_mem, decide_eq_false_iff_not, List.mem_map]
    rintro ⟨entry, hentry, rfl⟩
    apply hadded entry hentry hstat
  rw [reading, reading, Std.TreeMap.getD_insertMany_list_of_contains_eq_false hother,
    Std.TreeMap.getD_filter', Std.TreeMap.getD_eq_getD_getElem?]
  cases s[stat]? with
  | none => rfl
  | some amount =>
    rw [Option.filter_some]
    split
    case isTrue => rfl
    case isFalse hdropped =>
      have hzero : amount = 0 := by
        by_contra hne
        apply hdropped
        apply hkeep stat amount hne
      rw [hzero]
      rfl

section AgreeOn

variable {s s' : Snapshot}

theorem Term.verdict_congr {t : Term}
    (h : ∀ stat, t.comparedStat? = some stat → s.reading stat = s'.reading stat) :
  t.verdict (some s) = t.verdict (some s')
  := by
  rw [verdict, verdict]
  cases hcomparison : t.comparison? with
  | none => rfl
  | some comparison =>
    have hreading : s.reading t.criterion.stat = s'.reading t.criterion.stat := by
      apply h
      rw [comparedStat?, hcomparison, Option.map_some]
    simp [hreading]

namespace Tree

theorem decided_congr {t : Tree} (h : Snapshot.AgreeOn t.comparedStats s s') :
  t.decided (some s) = t.decided (some s')
  := by
  induction t using Tree.induction with
  | requirement _ verdict term =>
    have hverdict : term.verdict (some s) = term.verdict (some s') := by
      apply Term.verdict_congr
      intro stat hstat
      apply h stat
      apply mem_comparedStats_of_mem_leaves List.mem_cons_self hstat
    rw [decided, decided, ofTerm, ofTerm, hverdict]
  | negation _ operand ih => rw [decided, decided, ih h]
  | junction place kind parts ih =>
    rw [decided, decided, eachDecided_eq_map, eachDecided_eq_map]
    congr 1
    apply List.map_congr_left
    intro part hpart
    apply ih part hpart
    intro stat hstat
    apply h stat
    apply comparedStats_subset_of_mem hpart hstat

theorem evaluate_congr {t : Tree} (h : Snapshot.AgreeOn t.comparedStats s s') :
  t.evaluate (some s) = t.evaluate (some s')
  := by
  rw [evaluate, evaluate, decided_congr h]

/-- What is reported for an evaluated tree are comparisons. -/
theorem stat_mem_comparedStats_of_mem_blockers {t : Tree} {b : Blocker}
    (h : b ∈ (t.evaluate (some s)).blockers) :
  b.term.criterion.stat ∈ t.comparedStats
  := by
  obtain ⟨reported, hreported, hamiss, hblockers⟩ :=
    exists_sublist_of_blockers (t.evaluate (some s))
  rw [hblockers] at h
  obtain ⟨l, hl, rfl⟩ := List.mem_map.mp h
  have hleaf : l.leaf ∈ (t.evaluate (some s)).leaves := by
    rw [← map_leaf_leavesBelow 0]
    apply List.mem_map_of_mem (hreported.subset hl)
  rw [evaluate, finalize, leaves_placedAt, leaves_decided] at hleaf
  obtain ⟨leaf, hmem, hleaf⟩ := List.mem_map.mp hleaf
  obtain ⟨hterm, hverdict⟩ := Prod.mk.inj hleaf
  apply mem_comparedStats_of_mem_leaves hmem
  have hdecided : l.verdict = some l.isNegated := of_decide_eq_true (hamiss l hl)
  change leaf.1.comparedStat? = some l.term.criterion.stat
  rw [← hterm]
  apply Term.comparedStat?_eq_of_verdict
  exact hverdict.trans hdecided

/-- The outcome for an evaluated tree shows the amounts of compared stats, and no others. -/
theorem outcome_evaluate_congr {t : Tree} (h : Snapshot.AgreeOn t.comparedStats s s') :
  (t.evaluate (some s)).outcome s = (t.evaluate (some s')).outcome s'
  := by
  rw [← evaluate_congr h, outcome, outcome, shortfalls, shortfalls]
  congr 1
  apply List.map_congr_left
  intro b hb
  rw [Blocker.shortfall, Blocker.shortfall, h _ (stat_mem_comparedStats_of_mem_blockers hb)]

theorem build?_congr {names : Names} {criteria : List Criterion}
    (h : Snapshot.AgreeOn (Prerequisite.comparedStats (terms names criteria)) s s') :
  build? names (some s) criteria = build? names (some s') criteria
  := by
  rw [← map_evaluate_build? names none (some s), ← map_evaluate_build? names none (some s')]
  cases hbuilt : build? names none criteria with
  | none => rfl
  | some t =>
    rw [← comparedStats_of_build? hbuilt] at h
    rw [Option.map_some, Option.map_some, evaluate_congr h]

end Tree

theorem check_congr {names : Names} {criteria : List Criterion}
    (h : Snapshot.AgreeOn (comparedStats (terms names criteria)) s s') :
  check names criteria s = check names criteria s'
  := by
  cases hbuilt : Tree.build? names none criteria with
  | none =>
    obtain rfl := Tree.build?_eq_none_iff.mp hbuilt
    rfl
  | some t =>
    rw [← Tree.comparedStats_of_build? hbuilt] at h
    rw [check_eq_outcome_evaluate hbuilt, check_eq_outcome_evaluate hbuilt,
      Tree.outcome_evaluate_congr h]

end AgreeOn

/-! ### What does not matter -/

/-- Snapshots that give the same amounts to the compared stats lead to the same trees and to the
same outcomes, with all the amounts that are reported.  So nothing changes when entries that are
zero are dropped and when stats are added that are not compared, whether gates, probes and unknown
operators name them or not. -/
theorem build?_check_evaluate_of_agreeOn (names : Names) (criteria : List Criterion) (t : Tree)
    (s : Snapshot) :
  (∀ s' : Snapshot, Snapshot.AgreeOn (comparedStats (terms names criteria)) s s' →
    Tree.build? names (some s) criteria = Tree.build? names (some s') criteria
      ∧ check names criteria s = check names criteria s')
  ∧ (∀ s' : Snapshot, Snapshot.AgreeOn t.comparedStats s s' →
    t.evaluate (some s) = t.evaluate (some s'))
  ∧ ∀ (keep : Int64 → Int64 → Bool) (added : List (Int64 × Int64)),
    (∀ stat amount, amount ≠ 0 → keep stat amount) →
    let s' : Snapshot := (s.filter keep).insertMany added
    ((∀ entry ∈ added, entry.1 ∉ comparedStats (terms names criteria)) →
      Tree.build? names (some s) criteria = Tree.build? names (some s') criteria
        ∧ check names criteria s = check names criteria s')
    ∧ ((∀ entry ∈ added, entry.1 ∉ t.comparedStats) → t.evaluate (some s) = t.evaluate (some s'))
  := by
  refine ⟨?criteria, ?tree, ?padded⟩
  case criteria =>
    intro s' h
    use Tree.build?_congr h, check_congr h
  case tree =>
    intro s' h
    apply Tree.evaluate_congr h
  case padded =>
    intro keep added hkeep
    constructor
    · intro hadded
      have hagree := Snapshot.agreeOn_insertMany_filter hkeep hadded s
      use Tree.build?_congr hagree, check_congr hagree
    · intro hadded
      apply Tree.evaluate_congr
      apply Snapshot.agreeOn_insertMany_filter hkeep hadded

/-- The zeros of the compared stats may go, and amounts may come for the stats that a gate, a probe
and an unknown operator name. The amounts that are reported are still zero. -/
theorem check_of_padded_snapshot :
  let criteria : List Criterion :=
    [⟨0, 1, 0, 5⟩, ⟨1, 2, 26, 1⟩, .sentinel 2 4, ⟨3, 3, 45, 7⟩, .sentinel 4 4, ⟨5, 4, 999, 1⟩,
      .sentinel 6 4, ⟨7, 5, 24, 1⟩, .sentinel 8 42, .sentinel 9 4]
  let s : Snapshot := ((∅ : Snapshot).insert 1 0).insert 5 0
  let s' : Snapshot := (s.filter fun _ amount => amount ≠ 0).insertMany [(2, 9), (3, 7), (4, 1)]
  check .none criteria s = check .none criteria s'
    ∧ (check .none criteria s').unmet.map (fun entry => (entry.stat, entry.operator, entry.current))
      = [(1, "=", 0), (5, "NOT ≠", 0)]
  := by
  intro criteria s s'
  obtain ⟨-, -, hpadded⟩ := build?_check_evaluate_of_agreeOn .none criteria (.group []) s
  have hsame := hpadded (fun _ amount => amount ≠ 0) [(2, 9), (3, 7), (4, 1)] (by simp)
  have hstats : comparedStats (terms .none criteria) = [1, 5] := by decide
  have hcheck := (hsame.1 (by simp [hstats])).2
  use hcheck
  rw [← hcheck]
  decide

end Prerequisite
