import Prerequisite.Check
import Prerequisite.Proofs.Tree.Tallies

/-!
# Blocking trees and their blockers

A tree has blockers exactly when its status is blocking, so that an action is refused exactly when
something is reported as missing.  The status of a tree is computed from below, whereas its
blockers are collected from above and change sides at a negation.  The two meet in the notion of a
tree that obstructs: it is blocking or, below a negation, it counts as met in part.  A tree that
obstructs has a part that does, and what is reported for it is what is reported for those parts.
-/

namespace Prerequisite

namespace Tree

/-! ### Obstruction -/

/-- The tree keeps what is above it from being met. Below a negation it does so if it counts as
met in part, and otherwise if it is blocking. -/
def obstructs (negated : Bool) (t : Tree) : Bool :=
  if negated then 0 < t.tally.met else t.status.isBlocking

/-- The requirements that are reported for a tree that obstructs. -/
def obstacles (negated : Bool) (t : Tree) : List Blocker :=
  if negated then t.supporters else t.blockers

theorem obstructs_requirement_iff
    {negated : Bool} {place : Place} {verdict : Option Bool} {term : Term} :
  (Tree.requirement place verdict term).obstructs negated ↔ verdict = some negated
  := by
  cases negated with
  | false =>
    change (Tree.requirement place verdict term).status.isBlocking ↔ verdict = some false
    rw [status_requirement, Status.isBlocking_ofVerdict_iff]
  | true =>
    change decide (0 < (Tree.requirement place verdict term).tally.met) ↔ verdict = some true
    rw [decide_eq_true_iff, tally, Tally.met_ofStatus_pos_iff, Status.ofVerdict_eq_met_iff]

theorem obstacles_requirement
    (negated : Bool) (place : Place) (verdict : Option Bool) (term : Term) :
  (Tree.requirement place verdict term).obstacles negated
    = if verdict = some negated then [⟨negated, term⟩] else []
  := by
  rcases negated with _ | _
  · simp [obstacles, blockers]
  · simp [obstacles, supporters]

section Negation

variable {negated : Bool} {place : Place} {operand : Tree}

/-- The operand of a negation that obstructs does so below the negation. -/
theorem obstructs_operand (h : (Tree.negation place operand).obstructs negated) :
  operand.obstructs (!negated)
  := by
  cases negated with
  | false =>
    have hmet : operand.status = .met := isBlocking_negation_iff.mp h
    exact decide_eq_true (operand.isConsistent_tally.met_pos_of_met hmet)
  | true =>
    have hpos : 0 < (Tree.negation place operand).tally.met := of_decide_eq_true h
    simp only [tally_negation, Tally.not, Status.inverted_eq_met_iff] at hpos
    split_ifs at hpos with hunmet
    · exact (Status.isBlocking_iff _).mpr (.inl hunmet)
    · omega

theorem blockers_negation :
  (Tree.negation place operand).blockers
    = if operand.status = .met then operand.supporters else []
  := by
  simp only [blockers, Status.inverted_eq_unmet_iff]

/-- For a negation that obstructs, what is reported is what is reported for its operand. -/
theorem obstacles_negation (h : (Tree.negation place operand).obstructs negated) :
  (Tree.negation place operand).obstacles negated = operand.obstacles (!negated)
  := by
  cases negated with
  | false =>
    have hmet : operand.status = .met := isBlocking_negation_iff.mp h
    change (Tree.negation place operand).blockers = operand.supporters
    rw [blockers_negation, if_pos hmet]
  | true => rfl

end Negation

section Junction

variable {negated : Bool} {place : Place} {kind : Junction} {parts : List Tree}

/-- A junction that obstructs has a part that obstructs. -/
theorem exists_obstructs (hne : parts ≠ [])
    (h : (Tree.junction place kind parts).obstructs negated) :
  ∃ part ∈ parts, part.obstructs negated
  := by
  cases negated with
  | false =>
    by_cases hkind : kind = .any
    · subst hkind
      obtain ⟨part, hpart⟩ := List.exists_mem_of_ne_nil _ hne
      use part, hpart, (isBlocking_of_any h).2 part hpart
    · apply exists_isBlocking_of_all hkind h
  | true =>
    obtain ⟨part, hpart, hmet⟩ := exists_met_pos (of_decide_eq_true h)
    use part, hpart, decide_eq_true hmet

/-- All parts of an unmet disjunction block it. -/
theorem blockers_any :
  (Tree.junction place .any parts).blockers
    = if (Tree.junction place .any parts).status = .unmet then parts.flatMap blockers else []
  := by
  rw [blockers, blockersOf_eq_flatMap, status, tally]

/-- The blocking parts of a conjunction or group block it. -/
theorem blockers_all (hkind : kind ≠ .any) :
  (Tree.junction place kind parts).blockers
    = (parts.filter (·.status.isBlocking)).flatMap blockers
  := by
  rw [blockers, blockersOfBlocking_eq_flatMap]
  exact hkind

/-- All parts of a conjunction or group block it, if nothing is reported for the parts that are not
blocking. -/
theorem blockers_all_of_eq_nil (hkind : kind ≠ .any)
    (hnil : ∀ part ∈ parts, ¬ part.status.isBlocking → part.blockers = []) :
  (Tree.junction place kind parts).blockers = parts.flatMap blockers
  := by
  rw [blockers_all hkind]
  induction parts with
  | nil => rfl
  | cons t rest ih =>
    have hrest := ih fun part hpart => hnil part (List.mem_cons_of_mem _ hpart)
    rw [List.filter_cons, List.flatMap_cons]
    by_cases hblocking : t.status.isBlocking
    · rw [if_pos hblocking, List.flatMap_cons, hrest]
    · rw [if_neg hblocking, hrest, hnil t List.mem_cons_self hblocking, List.nil_append]

/-- For a junction that obstructs, what is reported is what is reported for the parts that
obstruct. -/
theorem obstacles_junction (h : (Tree.junction place kind parts).obstructs negated) :
  (Tree.junction place kind parts).obstacles negated
    = (parts.filter (obstructs negated)).flatMap (obstacles negated)
  := by
  cases negated with
  | false =>
    by_cases hkind : kind = .any
    · subst hkind
      obtain ⟨hunmet, hall⟩ := isBlocking_of_any h
      have hfilter : parts.filter (obstructs false) = parts := List.filter_eq_self.mpr hall
      rw [hfilter]
      exact blockers_any.trans (if_pos hunmet)
    · exact blockers_all hkind
  | true =>
    exact supportersOfCounted_eq_flatMap parts

end Junction

/-! ### Trees that are reported alike -/

/-- Whether a part of a node is reported, as its tally and that of the node decide. -/
def selects (negated : Bool) (kind : Junction) (whole part : Tally) : Bool :=
  if negated then 0 < part.met
  else if kind = .any then whole.status = .unmet
  else part.status.isBlocking

/-- Which parts are reported depends on their tallies and on that of the whole alone. -/
theorem obstacles_junction_eq
    (negated : Bool) (place : Place) (kind : Junction) (parts : List Tree) :
  (Tree.junction place kind parts).obstacles negated
    = (parts.filter fun part =>
        selects negated kind (Tree.junction place kind parts).tally part.tally).flatMap
      (obstacles negated)
  := by
  cases negated with
  | false =>
    change (Tree.junction place kind parts).blockers = _
    by_cases hkind : kind = .any
    · subst hkind
      rw [blockers_any, status]
      simp only [selects, Bool.false_eq_true, if_false, if_true]
      split
      case isTrue hunmet =>
        simp only [hunmet, decide_true, List.filter_true]
        rfl
      case isFalse hunmet => simp [hunmet]
    · rw [blockers_all hkind]
      simp only [selects, Bool.false_eq_true, if_false, if_neg hkind]
      rfl
  | true => exact supportersOfCounted_eq_flatMap parts

/-- The trees have the same tally, and what is reported for the one is related to what is reported
for the other one. -/
structure Resembles (r : List Blocker → List Blocker → Prop) (t u : Tree) : Prop where
  tally_eq : u.tally = t.tally
  obstacles : ∀ negated, r (t.obstacles negated) (u.obstacles negated)

/-- The relation is kept when reports are put one after the other. -/
structure IsAdditive (r : List Blocker → List Blocker → Prop) : Prop where
  nil : r [] []
  append : ∀ {bs bs' cs cs'}, r bs bs' → r cs cs' → r (bs ++ cs) (bs' ++ cs')

section Resembles

variable {r : List Blocker → List Blocker → Prop}

theorem Resembles.status_eq {t u : Tree} (h : t.Resembles r u) :
  u.status = t.status
  := congrArg Tally.status h.tally_eq

theorem Resembles.negation
    (hr : IsAdditive r) {t u : Tree} (h : t.Resembles r u) (place place' : Place) :
  (Tree.negation place t).Resembles r (.negation place' u)
  := by
  constructor
  · rw [tally_negation, tally_negation, h.tally_eq]
  · intro negated
    cases negated with
    | false =>
      change r (Tree.negation place t).blockers (Tree.negation place' u).blockers
      rw [blockers_negation, blockers_negation, h.status_eq]
      split
      · exact h.obstacles true
      · exact hr.nil
    | true => exact h.obstacles false

theorem map_tally_of_resembles {parts parts' : List Tree}
    (h : List.Forall₂ (Resembles r) parts parts') :
  parts'.map tally = parts.map tally
  := by
  induction h with
  | nil => rfl
  | cons hpart _ ih => rw [List.map_cons, List.map_cons, hpart.tally_eq, ih]

theorem flatMap_obstacles_of_resembles
    (hr : IsAdditive r) {parts parts' : List Tree} (h : List.Forall₂ (Resembles r) parts parts')
    (selected : Tally → Bool) (negated : Bool) :
  r ((parts.filter (selected ·.tally)).flatMap (Tree.obstacles negated))
    ((parts'.filter (selected ·.tally)).flatMap (Tree.obstacles negated))
  := by
  induction h with
  | nil => exact hr.nil
  | @cons t u rest rest' hpart _ ih =>
    rw [List.filter_cons, List.filter_cons, hpart.tally_eq]
    split
    · exact hr.append (hpart.obstacles negated) ih
    · exact ih

theorem Resembles.junction
    (hr : IsAdditive r) {parts parts' : List Tree} (h : List.Forall₂ (Resembles r) parts parts')
    (place place' : Place) (kind : Junction) :
  (Tree.junction place kind parts).Resembles r (.junction place' kind parts')
  := by
  have htally : (Tree.junction place' kind parts').tally = (Tree.junction place kind parts).tally := by
    cases kind <;> simp only [tally, tallies_eq_map, map_tally_of_resembles h]
  constructor
  · exact htally
  · intro negated
    rw [obstacles_junction_eq, obstacles_junction_eq, htally]
    exact flatMap_obstacles_of_resembles hr h _ negated

end Resembles

/-- The trees have the same tally, and what is reported for the second one is what is reported for
the first one, after a change to each report. -/
structure Mirrors (change : Blocker → Blocker) (t u : Tree) : Prop where
  tally_eq : u.tally = t.tally
  obstacles_eq : ∀ negated, u.obstacles negated = (t.obstacles negated).map change

section Mirrors

variable {change : Blocker → Blocker}

theorem mirrors_iff_resembles {t u : Tree} :
  t.Mirrors change u ↔ t.Resembles (fun bs cs => cs = bs.map change) u
  := ⟨fun h => ⟨h.tally_eq, h.obstacles_eq⟩, fun h => ⟨h.tally_eq, h.obstacles⟩⟩

theorem isAdditive_map (change : Blocker → Blocker) :
  IsAdditive fun bs cs => cs = bs.map change
  := by
  constructor
  · rfl
  · rintro bs _ cs _ rfl rfl
    rw [List.map_append]

theorem Mirrors.status_eq {t u : Tree} (h : t.Mirrors change u) :
  u.status = t.status
  := congrArg Tally.status h.tally_eq

theorem mirrors_requirement
    {verdict : Option Bool} {term term' : Term}
    (h : ∀ negated, change ⟨negated, term⟩ = ⟨negated, term'⟩) (place place' : Place) :
  (Tree.requirement place verdict term).Mirrors change (.requirement place' verdict term')
  := by
  constructor
  · rfl
  · intro negated
    rw [obstacles_requirement, obstacles_requirement]
    split
    · rw [List.map_singleton, h]
    · rfl

theorem Mirrors.negation {t u : Tree} (h : t.Mirrors change u) (place place' : Place) :
  (Tree.negation place t).Mirrors change (.negation place' u)
  := mirrors_iff_resembles.mpr
    (Resembles.negation (isAdditive_map change) (mirrors_iff_resembles.mp h) place place')

theorem Mirrors.junction {parts parts' : List Tree}
    (h : List.Forall₂ (Mirrors change) parts parts') (place place' : Place) (kind : Junction) :
  (Tree.junction place kind parts).Mirrors change (.junction place' kind parts')
  := by
  have hparts := h.imp fun _ _ hpart => mirrors_iff_resembles.mp hpart
  exact mirrors_iff_resembles.mpr (Resembles.junction (isAdditive_map change) hparts place place' kind)

end Mirrors

/-- Nothing that is reported for a tree depends on its layout. -/
theorem mirrors_placedAt (t : Tree) (place : Place) :
  t.Mirrors id (t.placedAt place)
  := by
  induction t using Tree.induction generalizing place with
  | requirement place' verdict term => exact mirrors_requirement (fun _ => rfl) place' place
  | negation place' operand ih => exact (ih _).negation place' place
  | junction place' kind parts ih => exact .junction (forall₂_siblingsAt ih _) place' place kind

@[simp]
theorem blockers_placedAt (t : Tree) (place : Place) :
  (t.placedAt place).blockers = t.blockers
  := by
  have hobstacles := (t.mirrors_placedAt place).obstacles_eq false
  rwa [List.map_id] at hobstacles

/-! ### What blocks is reported -/

/-- Something is reported for a tree that obstructs. -/
theorem IsFull.obstacles_ne_nil
    {t : Tree} (hfull : t.IsFull) (negated : Bool) (h : t.obstructs negated) :
  t.obstacles negated ≠ []
  := by
  induction hfull generalizing negated with
  | requirement place verdict term =>
    simp [obstacles_requirement, obstructs_requirement_iff.mp h]
  | negation place hoperand ih =>
    rw [obstacles_negation h]
    exact ih (!negated) (obstructs_operand h)
  | junction place hpos hparts ih =>
    obtain ⟨part, hpart, hobstructs⟩ := exists_obstructs (List.ne_nil_of_length_pos hpos) h
    rw [obstacles_junction h]
    intro hnil
    apply ih part hpart negated hobstructs
    apply List.flatMap_eq_nil_iff.mp hnil
    exact List.mem_filter.mpr ⟨hpart, hobstructs⟩

/-! ### What is reported blocks -/

/-- A tree that is met or unknown has no blockers, unless it is a conjunction or group and has a
blocking part. -/
theorem blockers_eq_nil_of_parts
    {t : Tree}
    (hparts : ∀ place kind parts, t = .junction place kind parts → kind ≠ .any →
      ∀ part ∈ parts, ¬ part.status.isBlocking)
    (hpasses : ¬ t.status.isBlocking) :
  t.blockers = []
  := by
  cases t with
  | requirement place verdict term =>
    rw [status_requirement, Status.isBlocking_ofVerdict_iff] at hpasses
    rw [blockers, if_neg hpasses]
  | negation place operand =>
    rw [blockers_negation, if_neg]
    intro hmet
    exact hpasses (isBlocking_negation_iff.mpr hmet)
  | junction place kind parts =>
    by_cases hkind : kind = .any
    · subst hkind
      rw [blockers_any, if_neg]
      intro hunmet
      apply hpasses
      simp [hunmet]
    · rw [Tree.blockers_all hkind, List.filter_eq_nil_iff.mpr (hparts place kind parts rfl hkind),
        List.flatMap_nil]

/-- A tree with few leaves that is met or unknown has no blockers. -/
theorem CountsLeaves.blockers_eq_nil
    {t : Tree} (h : t.CountsLeaves) (hsmall : t.leafCount < 2 ^ 32)
    (hpasses : ¬ t.status.isBlocking) :
  t.blockers = []
  := by
  apply blockers_eq_nil_of_parts _ hpasses
  rintro place kind parts rfl hkind
  exact h.not_isBlocking_of_mem hkind hsmall hpasses

/-- All parts of a conjunction or group with few leaves block it, since nothing is reported for the
parts that are not blocking. -/
theorem CountsLeaves.blockers_all {place : Place} {kind : Junction} (hkind : kind ≠ .any)
    {parts : List Tree} (h : (Tree.junction place kind parts).CountsLeaves)
    (hsmall : (Tree.junction place kind parts).leafCount < 2 ^ 32) :
  (Tree.junction place kind parts).blockers = parts.flatMap blockers
  := by
  apply blockers_all_of_eq_nil hkind
  intro part hpart
  apply (h.of_mem hpart).blockers_eq_nil
  exact (leafCount_le_of_mem place kind hpart).trans_lt hsmall

/-- A tree with few leaves has no blockers exactly when it is met or unknown. -/
theorem IsFull.blockers_eq_nil_iff
    {t : Tree} (h : t.IsFull) (hsmall : t.leafCount < 2 ^ 32) :
  t.blockers = [] ↔ t.status = .met ∨ t.status = .unknown
  := by
  rw [← Status.not_isBlocking_iff]
  constructor
  · intro hnil hblocking
    exact h.obstacles_ne_nil false hblocking hnil
  · apply h.countsLeaves.blockers_eq_nil hsmall

/-- A group without parts is unknown and has no blockers. -/
theorem emptyGroup_passes (place : Place) :
  (Tree.junction place .group []).status = .unknown ∧ (Tree.junction place .group []).blockers = []
  := by
  constructor <;> rfl

theorem canPerform_outcome_iff {s : Snapshot} {t : Tree} :
  (t.outcome s).canPerform ↔ ¬ t.status.isBlocking
  := by
  rw [outcome, Bool.not_eq_true', Bool.not_eq_true]

variable {names : Names} {stats : Option Snapshot} {criteria : List Criterion} {root t : Tree}

/-- The tree of some criteria has blockers if it is blocking. -/
theorem blockers_ne_nil_of_build?
    (hroot : build? names stats criteria = some root) (hblocking : root.status.isBlocking) :
  root.blockers ≠ []
  := by
  obtain hfull | ⟨place, rfl⟩ := isFull_or_emptyGroup_of_build? hroot
  · exact hfull.obstacles_ne_nil false hblocking
  · simp [(emptyGroup_passes place).1] at hblocking

/-- A node with few leaves in the tree of some criteria has no blockers exactly when it is met or
unknown. -/
theorem blockers_eq_nil_iff_of_occursIn {depth : Nat}
    (hroot : build? names stats criteria = some root) (h : t.OccursIn depth root)
    (hsmall : t.leafCount < 2 ^ 32) :
  t.blockers = [] ↔ t.status = .met ∨ t.status = .unknown
  := by
  obtain hfull | ⟨place, rfl⟩ := isFull_or_emptyGroup_of_build? hroot
  · apply IsFull.blockers_eq_nil_iff (hfull.of_occursIn h) hsmall
  · cases h with
    | root => simp [emptyGroup_passes]
    | junction _ _ hpart _ => cases hpart

end Tree

/-! ### The check of an action -/

/-- Nothing is missing at a node of the tree of some criteria exactly when the node is met or
unknown, if there are fewer leaves below than can be counted. An action that may not be performed
always misses something, and an action that may be performed misses nothing, if its criteria have
fewer operands than can be counted. -/
theorem canPerform_iff_unmet_eq_nil (names : Names) (criteria : List Criterion) (s : Snapshot) :
  (∀ root, Tree.build? names (some s) criteria = some root →
    ∀ (depth : Nat) (t : Tree), t.OccursIn depth root → t.leafCount < 2 ^ 32 →
      (t.shortfalls s = [] ↔ t.status = .met ∨ t.status = .unknown))
  ∧ ((check names criteria s).canPerform = false → (check names criteria s).unmet ≠ [])
  ∧ ((terms names criteria).countP Term.isOperand < 2 ^ 32 →
      ((check names criteria s).canPerform = true ↔ (check names criteria s).unmet = []))
  := by
  have hnodes : ∀ root, Tree.build? names (some s) criteria = some root →
      ∀ (depth : Nat) (t : Tree), t.OccursIn depth root → t.leafCount < 2 ^ 32 →
        (t.shortfalls s = [] ↔ t.status = .met ∨ t.status = .unknown) := by
    intro root hroot depth t ht hsmall
    rw [Tree.shortfalls, List.map_eq_nil_iff]
    apply Tree.blockers_eq_nil_iff_of_occursIn hroot ht hsmall
  use hnodes
  rcases hroot : Tree.build? names (some s) criteria with _ | root
  · simp [check, hroot]
  · rw [check, hroot]
    constructor
    · intro hblocked hnil
      apply Tree.blockers_ne_nil_of_build? hroot
      · simpa [Tree.outcome] using hblocked
      · simpa [Tree.outcome, Tree.shortfalls] using hnil
    · intro hsmall
      have hcount : root.leafCount < 2 ^ 32 := by
        rwa [Tree.leafCount_of_build? hroot]
      have hiff := hnodes root hroot 0 root .root hcount
      rw [← Status.not_isBlocking_iff] at hiff
      simp only [Tree.outcome, hiff, Bool.not_eq_true', Bool.not_eq_true]

/-- The negation of a disjunction that has a conjunction among its parts is reported as soon as the
conjunction is met in part. Without any amounts the action may be performed, and nothing is
missing. -/
theorem unmet_ne_nil_of_partly_under_negation :
  let criteria : List Criterion :=
    [⟨0, 1, 0, 1⟩, ⟨1, 2, 0, 2⟩, .sentinel 2 4, ⟨3, 3, 0, 3⟩, .sentinel 4 3, .sentinel 5 42]
  (check .none criteria ((∅ : Snapshot).insert 1 1)).unmet ≠ []
    ∧ (terms .none criteria).countP Term.isOperand < 2 ^ 32
    ∧ (check .none criteria ∅).unmet = []
    ∧ ∃ root, Tree.build? .none (some ∅) criteria = some root ∧ root.leafCount < 2 ^ 32
      ∧ (root.shortfalls ∅ = [] ↔ root.status = .met ∨ root.status = .unknown)
  := by
  intro criteria
  have hsmall : (terms .none criteria).countP Term.isOperand < 2 ^ 32 := by decide
  obtain ⟨hnodes, -, hpasses⟩ := canPerform_iff_unmet_eq_nil .none criteria ∅
  refine ⟨?_, hsmall, ?_, ?_⟩
  · apply (canPerform_iff_unmet_eq_nil _ _ _).2.1
    decide
  · apply (hpasses hsmall).mp
    decide
  · obtain ⟨root, hbuilt⟩ := Tree.exists_build? .none (some ∅) (List.cons_ne_nil _ _)
    have hcount : root.leafCount < 2 ^ 32 := by
      rwa [Tree.leafCount_of_build? hbuilt]
    exact ⟨root, hbuilt, hcount, hnodes root hbuilt 0 root .root hcount⟩

end Prerequisite
