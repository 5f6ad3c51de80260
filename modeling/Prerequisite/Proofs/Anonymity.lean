import Prerequisite.Proofs.Blockers
import Prerequisite.Proofs.Tree.Leafwise

/-!
# Names and identifiers

Names are for display.  The tree of some criteria depends on the source of names in the labels of
stats and in the wordings alone, and on the identifiers of the criteria in nothing but these
identifiers.  What is anonymous has neither names nor identifiers.  Criteria that differ in their
identifiers alone have the same anonymous tree, whatever the sources of names, and their checks
have the same anonymous outcome.
-/

namespace Prerequisite

/-! ### Anonymous terms -/

/-- The criterion without its identifier. -/
def Criterion.anonymous (c : Criterion) : Criterion := { c with id := 0 }

/-- The term without the identifier of its criterion, the label of its stat and its wording. -/
def Term.anonymous (t : Term) : Term :=
  { t with criterion := t.criterion.anonymous, statName := "", description := "" }

/-- The blocker with an anonymous term. -/
def Blocker.anonymous (b : Blocker) : Blocker := { b with term := b.term.anonymous }

theorem Term.connective?_anonymous (t : Term) :
  t.anonymous.connective? = t.connective?
  := rfl

/-- Without its names, a term does not depend on the identifier, nor on the source of names. -/
theorem Criterion.anonymous_term (names : Names) (c : Criterion) :
  (c.term names).anonymous = (c.anonymous.term .none).anonymous
  := rfl

theorem map_anonymous_terms_congr
    {criteria criteria' : List Criterion}
    (h : criteria.map Criterion.anonymous = criteria'.map Criterion.anonymous)
    (names names' : Names) :
  (terms names criteria).map Term.anonymous = (terms names' criteria').map Term.anonymous
  := by
  have hterms (names : Names) (criteria : List Criterion) :
      (terms names criteria).map Term.anonymous
        = (criteria.map Criterion.anonymous).map fun c => (c.term .none).anonymous := by
    rw [terms, List.map_map, List.map_map]
    apply List.map_congr_left
    intro c _
    exact c.anonymous_term names
  rw [hterms, hterms, h]

theorem isPlainConjunction_map_anonymous (terms : List Term) :
  isPlainConjunction (terms.map Term.anonymous) = isPlainConjunction terms
  := by
  rw [isPlainConjunction, isPlainConjunction, List.filterMap_map, List.countP_map]
  rfl

namespace Tree

/-! ### Anonymous trees -/

mutual

/-- The tree with anonymous terms. -/
def anonymous : Tree → Tree
  | .requirement place verdict term => .requirement place verdict term.anonymous
  | .negation place operand => .negation place operand.anonymous
  | .junction place kind parts => .junction place kind (eachAnonymous parts)

/-- Some trees with anonymous terms. -/
def eachAnonymous : List Tree → List Tree
  | [] => []
  | t :: rest => t.anonymous :: eachAnonymous rest

end

@[simp]
theorem eachAnonymous_eq_map (parts : List Tree) :
  eachAnonymous parts = parts.map anonymous
  := by
  induction parts with
  | nil => rfl
  | cons t rest ih => simp [eachAnonymous, ih]

theorem isLeafwise_anonymous :
  IsLeafwise id anonymous
  := by
  constructor
  case default => rfl
  case requirement =>
    intro verdict term
    use verdict, term.anonymous
    intro _
    rfl
  case negation =>
    intro _ operand
    rfl
  case junction =>
    intro place kind parts
    rw [anonymous, eachAnonymous_eq_map, id]

/-- The anonymous tree of some terms is the tree of the anonymous terms. -/
theorem map_anonymous_ofTerms? (stats : Option Snapshot) (terms : List Term) :
  (ofTerms? stats terms).map anonymous = ofTerms? stats (terms.map Term.anonymous)
  := by
  have hrough : (rough stats terms).anonymous = rough stats (terms.map Term.anonymous) :=
    isLeafwise_anonymous.rough (fun _ => rfl) Term.connective?_anonymous
      (isPlainConjunction_map_anonymous terms)
  rw [ofTerms?, ofTerms?, List.isEmpty_map]
  split
  · rfl
  · rw [Option.map_some, finalize, isLeafwise_anonymous.placedAt,
      isLeafwise_anonymous.consolidate, hrough, finalize]

/-! ### What names do not show -/

theorem anonymous_junction (place : Place) (kind : Junction) (parts : List Tree) :
  (Tree.junction place kind parts).anonymous = .junction place kind (parts.map anonymous)
  := isLeafwise_anonymous.junction place kind parts

/-- What is reported for an anonymous tree is what is reported for the tree, anonymously. -/
theorem mirrors_anonymous (t : Tree) :
  t.Mirrors Blocker.anonymous t.anonymous
  := by
  induction t using Tree.induction with
  | requirement place verdict term => exact mirrors_requirement (fun _ => rfl) place place
  | negation place operand ih => exact ih.negation place place
  | junction place kind parts ih =>
    rw [anonymous_junction]
    apply Mirrors.junction
    rwa [List.forall₂_map_right_iff, List.forall₂_same]

@[simp]
theorem tally_anonymous (t : Tree) :
  t.anonymous.tally = t.tally
  := t.mirrors_anonymous.tally_eq

@[simp]
theorem status_anonymous (t : Tree) :
  t.anonymous.status = t.status
  := t.mirrors_anonymous.status_eq

/-- The place and the tally of each node of a tree, a node before those below it. -/
def placesAndTallies (t : Tree) : List (Place × Tally) :=
  t.rows.map fun row => (row.place, row.tally)

theorem placesAndTallies_eq_cons (t : Tree) :
  t.placesAndTallies = (t.place, t.tally) :: t.children.flatMap placesAndTallies
  := by
  rw [placesAndTallies, rows_eq_cons, List.map_cons, List.map_flatMap]
  rfl

theorem placesAndTallies_anonymous (t : Tree) :
  t.anonymous.placesAndTallies = t.placesAndTallies
  := by
  induction t using Tree.induction with
  | requirement place verdict term => rfl
  | negation place operand ih =>
    rw [placesAndTallies_eq_cons, placesAndTallies_eq_cons, tally_anonymous]
    simp only [anonymous, children, List.flatMap_singleton, ih]
    rfl
  | junction place kind parts ih =>
    rw [placesAndTallies_eq_cons, placesAndTallies_eq_cons, tally_anonymous, anonymous_junction]
    simp only [children, List.flatMap_map]
    rw [List.flatMap_congr ih]
    rfl

end Tree

/-! ### Anonymous outcomes -/

/-- The shortfall without the label of its stat. -/
def Shortfall.anonymous (s : Shortfall) : Shortfall := { s with statName := "" }

/-- The outcome without the labels of stats. -/
def Outcome.anonymous (o : Outcome) : Outcome := { o with unmet := o.unmet.map (·.anonymous) }

namespace Tree

theorem outcome_anonymous (s : Snapshot) (t : Tree) :
  t.anonymous.outcome s = (t.outcome s).anonymous
  := by
  have hblockers : t.anonymous.blockers = t.blockers.map Blocker.anonymous :=
    t.mirrors_anonymous.obstacles_eq false
  rw [outcome, status_anonymous, shortfalls, hblockers, Outcome.anonymous, outcome, shortfalls,
    List.map_map, List.map_map]
  rfl

end Tree

/-! ### Criteria that differ in their identifiers -/

/-- Without labels, the outcome of a check is that of the anonymous tree. -/
theorem check_anonymous (names : Names) (criteria : List Criterion) (s : Snapshot) :
  (check names criteria s).anonymous
    = ((Tree.build? names (some s) criteria).map Tree.anonymous).elim ⟨true, []⟩ (·.outcome s)
  := by
  rw [check]
  rcases Tree.build? names (some s) criteria with _ | t
  · rfl
  · exact (t.outcome_anonymous s).symm

/-- Let two lists of criteria be given that differ in nothing but identifiers, and two sources of
names. Their trees differ in nothing but identifiers, labels of stats and wordings: the places and
the tallies of all nodes are the same. Both lists plainly are conjunctions or neither is. The
actions that they guard are allowed alike, and what is missing differs in nothing but labels of
stats. -/
theorem build?_check_of_identifiers_differ
    {criteria criteria' : List Criterion}
    (h : criteria.map Criterion.anonymous = criteria'.map Criterion.anonymous)
    (names names' : Names) :
  (∀ stats : Option Snapshot,
    (Tree.build? names stats criteria).map Tree.anonymous
        = (Tree.build? names' stats criteria').map Tree.anonymous
      ∧ (Tree.build? names stats criteria).map Tree.placesAndTallies
        = (Tree.build? names' stats criteria').map Tree.placesAndTallies)
  ∧ isPlainConjunction (terms names criteria) = isPlainConjunction (terms names' criteria')
  ∧ ∀ s : Snapshot,
    (check names criteria s).canPerform = (check names' criteria' s).canPerform
      ∧ (check names criteria s).unmet.map Shortfall.anonymous
        = (check names' criteria' s).unmet.map Shortfall.anonymous
  := by
  have hterms := map_anonymous_terms_congr h names names'
  have hbuild (stats : Option Snapshot) :
      (Tree.build? names stats criteria).map Tree.anonymous
        = (Tree.build? names' stats criteria').map Tree.anonymous := by
    rw [Tree.build?, Tree.build?, Tree.map_anonymous_ofTerms?, Tree.map_anonymous_ofTerms?, hterms]
  refine ⟨?_, ?_, ?_⟩
  · intro stats
    use hbuild stats
    have hplaces := congrArg (Option.map Tree.placesAndTallies) (hbuild stats)
    simpa only [Option.map_map, Function.comp_def, Tree.placesAndTallies_anonymous] using hplaces
  · rw [← isPlainConjunction_map_anonymous, hterms, isPlainConjunction_map_anonymous]
  · intro s
    have hcheck := check_anonymous names criteria s
    rw [hbuild, ← check_anonymous] at hcheck
    have hcanPerform := congrArg Outcome.canPerform hcheck
    have hunmet := congrArg Outcome.unmet hcheck
    exact ⟨hcanPerform, hunmet⟩

/-- Names that read like connectives show in what is missing, and in nothing else. -/
theorem check_of_named_and_renumbered :
  let names : Names := fun _ => some "NOT"
  let criteria : List Criterion := [⟨7, 60, 0, 5⟩, ⟨7, 1, 1, 9⟩, .sentinel 7 3, .sentinel 0 42]
  let criteria' : List Criterion := [⟨0, 60, 0, 5⟩, ⟨1, 1, 1, 9⟩, .sentinel 2 3, .sentinel 3 42]
  let s : Snapshot := (∅ : Snapshot).insert 60 5
  criteria.map Criterion.anonymous = criteria'.map Criterion.anonymous
    ∧ (check names criteria s).canPerform = (check .none criteria' s).canPerform
    ∧ (check names criteria s).unmet ≠ (check .none criteria' s).unmet
    ∧ (check names criteria s).unmet.map Shortfall.anonymous
      = (check .none criteria' s).unmet.map Shortfall.anonymous
  := by
  intro names criteria criteria' s
  have h : criteria.map Criterion.anonymous = criteria'.map Criterion.anonymous := by decide
  obtain ⟨-, -, hcheck⟩ := build?_check_of_identifiers_differ h names .none
  exact ⟨h, (hcheck s).1, by decide, (hcheck s).2⟩

end Prerequisite
