import Prerequisite.Check
import Prerequisite.Proofs.Tree.Leafwise

/-!
# Evaluation anew

The tree of some criteria has the same shape for all snapshots: whether the criteria are read as
a conjunction, as an expression or as a group depends on the criteria alone, and so does the
consolidation of their tree.  So the tree that is evaluated with another snapshot is the tree that
is built with that snapshot, and of several snapshots the last one alone matters.
-/

namespace Prerequisite.Tree

/-! ### Evaluation and the shape -/

/-- The verdicts do not depend on the layout. -/
@[simp]
theorem decided_placedAt (stats : Option Snapshot) (place : Place) (t : Tree) :
  (t.placedAt place).decided stats = t.decided stats
  := by
  induction t using Tree.induction generalizing place with
  | requirement _ verdict term => rfl
  | negation _ operand ih => rw [placedAt, decided, decided, ih]
  | junction _ kind parts ih =>
    rw [placedAt, decided, decided, eachDecided_eq_map, eachDecided_eq_map,
      map_siblingsAt (fun t ht place => ih t ht place)]

@[simp]
theorem decided_finalize (stats : Option Snapshot) (t : Tree) :
  t.finalize.decided stats = t.decided stats
  := decided_placedAt stats _ t

/-- The verdicts of one snapshot replace those of another one. -/
@[simp]
theorem decided_decided (stats stats' : Option Snapshot) (t : Tree) :
  (t.decided stats).decided stats' = t.decided stats'
  := by
  induction t using Tree.induction with
  | requirement _ verdict term => rfl
  | negation _ operand ih => rw [decided, Tree.not, decided, decided, ih]
  | junction _ kind parts ih =>
    rw [decided, decided, decided, eachDecided_eq_map, eachDecided_eq_map, eachDecided_eq_map,
      List.map_map]
    congr 1
    apply List.map_congr_left ih

/-- Evaluation changes verdicts and takes the layout away, and nothing else. -/
theorem isLeafwise_decided (stats : Option Snapshot) :
  IsLeafwise (fun _ => {}) (decided stats)
  := by
  constructor
  case default => rfl
  case requirement =>
    intro _ term
    use term.verdict stats, term
    intro _
    rfl
  case negation =>
    intro _ operand
    rfl
  case junction =>
    intro _ kind parts
    rw [decided, eachDecided_eq_map]

/-- A consolidated tree is evaluated as the tree itself is, up to consolidation. -/
theorem decided_consolidate (stats : Option Snapshot) (t : Tree) :
  t.consolidate.decided stats = (t.decided stats).consolidate
  := (isLeafwise_decided stats).consolidate t

/-! ### Evaluation and the criteria -/

/-- What some terms denote is evaluated to what they denote with the other snapshot. -/
theorem decided_rough (stats stats' : Option Snapshot) (terms : List Term) :
  (rough stats terms).decided stats' = rough stats' terms
  := by
  have hrough : (rough stats terms).decided stats' = rough stats' (terms.map id) :=
    (isLeafwise_decided stats').rough (fun _ => rfl) (fun _ => rfl)
      (congrArg isPlainConjunction (List.map_id terms))
  rwa [List.map_id] at hrough

/-- The tree of some criteria is evaluated to the tree that is built with the other snapshot. -/
theorem map_evaluate_build?
    (names : Names) (stats stats' : Option Snapshot) (criteria : List Criterion) :
  (build? names stats criteria).map (evaluate stats') = build? names stats' criteria
  := by
  rw [build?, build?, ofTerms?, ofTerms?]
  split
  · rfl
  · rw [Option.map_some, evaluate, decided_finalize, decided_consolidate, decided_rough]

theorem build?_evaluate
    {names : Names} {stats : Option Snapshot} {criteria : List Criterion} {t : Tree}
    (h : build? names stats criteria = some t) (stats' : Option Snapshot) :
  build? names stats' criteria = some (t.evaluate stats')
  := by
  rw [← map_evaluate_build? names stats, h, Option.map_some]

/-- The tree of some criteria that is evaluated any number of times is a tree of the criteria. -/
theorem exists_build?_foldl_evaluate
    {names : Names} {stats : Option Snapshot} {criteria : List Criterion} {t : Tree}
    (h : build? names stats criteria = some t) (snapshots : List (Option Snapshot)) :
  ∃ last, build? names last criteria = some (snapshots.foldl (fun t stats => t.evaluate stats) t)
  := by
  induction snapshots generalizing stats t with
  | nil => exact ⟨stats, h⟩
  | cons next rest ih =>
    apply ih
    exact build?_evaluate h next

theorem evaluate_evaluate (stats stats' : Option Snapshot) (t : Tree) :
  (t.evaluate stats).evaluate stats' = t.evaluate stats'
  := by
  rw [evaluate, evaluate, decided_finalize, decided_decided, evaluate]

/-- Of several snapshots with which a tree is evaluated in turn, the last one alone matters. -/
theorem foldl_evaluate (earlier : List (Option Snapshot)) (last : Option Snapshot) (t : Tree) :
  (earlier ++ [last]).foldl (fun t stats => t.evaluate stats) t = t.evaluate last
  := by
  induction earlier generalizing t with
  | nil => rfl
  | cons stats rest ih => rw [List.cons_append, List.foldl_cons, ih, evaluate_evaluate]

/-- The tree of some criteria that is evaluated with several snapshots in turn is the tree that is
built with the last one, with all its verdicts and with its layout. There is no tree before and
after if there are no criteria. -/
theorem foldl_evaluate_eq_build
    (names : Names) (criteria : List Criterion) (first : Option Snapshot)
    (earlier : List (Option Snapshot)) (last : Option Snapshot) :
  (build? names first criteria).map
      (fun t => (earlier ++ [last]).foldl (fun t stats => t.evaluate stats) t)
    = build? names last criteria
  ∧ (build? names last criteria = none ↔ criteria = [])
  := by
  constructor
  · rw [← map_evaluate_build? names first last criteria]
    congr 1
    funext t
    apply foldl_evaluate
  · rw [build?, ofTerms?]
    simp [terms]

end Prerequisite.Tree

namespace Prerequisite

/-- The check of an action takes the tree that is built with one snapshot and evaluates it with
the other one. -/
theorem check_eq_outcome_evaluate
    {names : Names} {criteria : List Criterion} {stats : Option Snapshot} {t : Tree}
    (h : Tree.build? names stats criteria = some t) (s : Snapshot) :
  check names criteria s = (t.evaluate (some s)).outcome s
  := by
  rw [check, ← Tree.map_evaluate_build? names stats, h]
  rfl

end Prerequisite
