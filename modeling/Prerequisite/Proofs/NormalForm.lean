import Prerequisite.Proofs.Reevaluation
import Prerequisite.Proofs.Tree.Alternation
import Prerequisite.Proofs.Tree.Tallies

/-!
# The normal form of a tree

The tree of some criteria has a normal form, whatever the criteria and whatever the snapshot.  A
group stands at the root alone, and its parts are requirements.  Conjunctions and disjunctions have
two parts at least and alternate.  The total count of a node is its weight, as long as the weight
can be counted: a disjunction is a single choice and weighs as much as a requirement.
-/

namespace Prerequisite.Tree

/-! ### Nodes in normal form -/

/-- The tree is a group. -/
def isGroup : Tree → Bool
  | .junction _ .group _ => true
  | _ => false

/-- What holds of each node in the tree of some criteria. -/
structure IsRegular (t : Tree) : Prop where
  two_le_length_children :
    t.connective? = some .and ∨ t.connective? = some .or → 2 ≤ t.children.length
  length_children_of_not : t.connective? = some .not → t.children.length = 1
  not_and_below_and :
    t.connective? = some .and → ∀ child ∈ t.children, child.connective? ≠ some .and
  not_or_below_or :
    t.connective? = some .or → ∀ child ∈ t.children, child.connective? ≠ some .or
  met_le_total : t.tally.met ≤ t.tally.total
  total_of_or : t.connective? = some .or → t.tally.total = 1
  and_or_group_of_partly : t.status = .partly → t.connective? = some .and ∨ t.isGroup
  total_eq_weight : t.leafCount < 2 ^ 32 → t.tally.total = t.weight
  total_le_leafCount : t.tally.total ≤ t.leafCount

/-- A group stands at most at the root, where its parts are requirements, and each node is in
normal form. -/
structure IsNormal (root : Tree) : Prop where
  isSome_term?_child : root.isGroup → ∀ child ∈ root.children, child.term?.isSome
  not_isGroup_below : ∀ child ∈ root.children, ∀ (depth : Nat) (t : Tree),
    t.OccursIn depth child → ¬ t.isGroup
  isRegular : ∀ (depth : Nat) (t : Tree), t.OccursIn depth root → t.IsRegular

variable {t : Tree}

theorem exists_eq_any (h : t.connective? = some .or) :
  ∃ place parts, t = .junction place .any parts
  := by
  cases t with
  | requirement place verdict term => cases h
  | negation place operand => cases h
  | junction place kind parts =>
    cases kind
    case any => exact ⟨place, parts, rfl⟩
    all_goals cases h

/-- Conjunctions and groups alone can be met in part. -/
theorem and_or_group_of_status_eq_partly (h : t.status = .partly) :
  t.connective? = some .and ∨ t.isGroup
  := by
  cases t with
  | requirement place verdict term =>
    rw [status_requirement] at h
    rcases verdict with _ | _ | _ <;> cases h
  | negation place operand =>
    rw [status_negation] at h
    cases hstatus : operand.status <;> simp [hstatus, Status.inverted] at h
  | junction place kind parts =>
    cases kind with
    | all => exact .inl rfl
    | group => exact .inr rfl
    | any =>
      have hunmet := (isBlocking_of_any ((Status.isBlocking_iff _).mpr (.inr h))).1
      rw [h] at hunmet
      cases hunmet

theorem Alternates.connective?_child_ne (h : t.Alternates) {connective : Connective}
    (hne : connective ≠ .not) (hconnective : t.connective? = some connective) :
  ∀ child ∈ t.children, child.connective? ≠ some connective
  := by
  cases h with
  | requirement place verdict term => cases hconnective
  | negation place _ => exact absurd (Option.some.inj hconnective).symm hne
  | junction place hparts _ =>
    obtain ⟨hkind, rfl⟩ := connective?_junction_eq_some_iff.mp hconnective
    exact hparts hkind

/-- A node is in normal form if its shape is, and if it weighs at most as much as it has leaves. -/
theorem isRegular_of_alternates
    (hshape : t.Shaped fun kind arity => kind ≠ .group → 2 ≤ arity) (halternates : t.Alternates)
    (hweight : t.weight ≤ t.leafCount) :
  t.IsRegular
  := by
  constructor
  case two_le_length_children =>
    intro hconnective
    cases hshape with
    | requirement place verdict term => simp [connective?] at hconnective
    | negation place _ => simp [connective?] at hconnective
    | junction place hallowed _ =>
      apply hallowed
      rintro rfl
      simp [connective?] at hconnective
  case length_children_of_not =>
    intro hconnective
    rcases t with _ | _ | ⟨_, _ | _ | _, _⟩ <;> simp_all [connective?, children]
  case not_and_below_and =>
    apply halternates.connective?_child_ne
    simp
  case not_or_below_or =>
    apply halternates.connective?_child_ne
    simp
  case met_le_total => exact t.isConsistent_tally.met_le_total
  case total_of_or =>
    intro hconnective
    obtain ⟨place, parts, rfl⟩ := exists_eq_any hconnective
    rw [tally_any, Tally.total_any]
  case and_or_group_of_partly => exact and_or_group_of_status_eq_partly
  case total_eq_weight =>
    intro hsmall
    rw [total_eq_min_weight, Tally.countLimit]
    omega
  case total_le_leafCount => exact t.total_le_weight.trans hweight

/-! ### The tree of some criteria -/

section Build

variable {names : Names} {stats : Option Snapshot} {criteria : List Criterion} {root : Tree}

theorem IsExpression.not_isGroup (h : t.IsExpression) :
  ¬ t.isGroup
  := by
  cases h with
  | requirement place verdict term => simp [isGroup]
  | negation place _ => simp [isGroup]
  | @junction kind parts place hallowed _ => cases kind <;> simp_all [isGroup]

/-- Conjunctions and disjunctions have two parts at least in the tree of some criteria. -/
theorem shaped_of_build? (h : build? names stats criteria = some root) :
  root.Shaped fun kind arity => kind ≠ .group → 2 ≤ arity
  := by
  obtain hexpression | rfl := isExpression_or_eq_groupOf_of_build? h
  · apply Shaped.mono _ hexpression
    rintro kind arity ⟨-, harity⟩ -
    exact harity
  · apply Shaped.junction _ (by simp)
    intro part hpart
    obtain ⟨place, verdict, term, rfl⟩ := exists_eq_requirement_of_mem hpart
    exact .requirement place verdict term

/-- No node in the tree of some criteria weighs more than it has leaves. -/
theorem weight_le_leafCount_of_occursIn {depth : Nat}
    (hroot : build? names stats criteria = some root) (h : t.OccursIn depth root) :
  t.weight ≤ t.leafCount
  := by
  obtain hfull | ⟨place, rfl⟩ := isFull_or_emptyGroup_of_build? hroot
  · exact IsFull.weight_le_leafCount (hfull.of_occursIn h)
  · cases h with
    | root => simp [weight, weightOf]
    | junction _ _ hpart _ => cases hpart

theorem isNormal_of_build? (h : build? names stats criteria = some root) :
  root.IsNormal
  := by
  constructor
  case isSome_term?_child =>
    intro hgroup child hchild
    obtain hexpression | rfl := isExpression_or_eq_groupOf_of_build? h
    · exact absurd hgroup hexpression.not_isGroup
    · obtain ⟨place, verdict, term, rfl⟩ := exists_eq_requirement_of_mem hchild
      rfl
  case not_isGroup_below =>
    intro child hchild depth t ht
    obtain hexpression | rfl := isExpression_or_eq_groupOf_of_build? h
    · have hbelow : child.IsExpression := hexpression.of_mem_children hchild
      exact IsExpression.not_isGroup (hbelow.of_occursIn ht)
    · obtain ⟨place, verdict, term, rfl⟩ := exists_eq_requirement_of_mem hchild
      cases ht
      simp [isGroup]
  case isRegular =>
    intro depth t ht
    apply isRegular_of_alternates
    · exact (shaped_of_build? h).of_occursIn ht
    · exact (alternates_of_build? h).of_occursIn ht
    · exact weight_le_leafCount_of_occursIn h ht

/-- Criteria have a tree, and it is in normal form, however often it is evaluated. -/
theorem isNormal_foldl_evaluate_of_build?
    (names : Names) (stats : Option Snapshot) {criteria : List Criterion} (hne : criteria ≠ []) :
  ∃ t, build? names stats criteria = some t
    ∧ ∀ snapshots : List (Option Snapshot),
      (snapshots.foldl (fun t stats => t.evaluate stats) t).IsNormal
  := by
  obtain ⟨t, hbuilt⟩ := exists_build? names stats hne
  use t, hbuilt
  intro snapshots
  obtain ⟨last, hlast⟩ := exists_build?_foldl_evaluate hbuilt snapshots
  exact isNormal_of_build? hlast

end Build

/-- A disjunction counts once below a conjunction, and a negation as often as its operand. -/
theorem total_of_reevaluated :
  let criteria : List Criterion :=
    [⟨0, 1, 0, 1⟩, ⟨1, 2, 0, 2⟩, .sentinel 2 3, ⟨3, 3, 0, 3⟩, ⟨4, 4, 0, 4⟩, .sentinel 5 4,
      .sentinel 6 42, .sentinel 7 4]
  let s : Snapshot := (∅ : Snapshot).insert 1 1
  ∃ t, build? .none none criteria = some t
    ∧ (t.evaluate (some s)).leafCount = 4 ∧ (t.evaluate (some s)).tally.total = 3
  := by
  intro criteria s
  have hbuilt : build? .none none criteria = some _ := rfl
  obtain ⟨t, ht, hnormal⟩ := isNormal_foldl_evaluate_of_build? .none none
    (List.cons_ne_nil _ _ : criteria ≠ [])
  obtain rfl := Option.some.inj (hbuilt.symm.trans ht)
  have hregular := (hnormal [some s]).isRegular 0 _ .root
  refine ⟨_, hbuilt, by decide, ?_⟩
  exact (hregular.total_eq_weight (by decide)).trans (by decide)

end Prerequisite.Tree
